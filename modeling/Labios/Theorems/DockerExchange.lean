import Labios.Elastic.DockerHttp

/-!
# Requests to Docker and their answers

`request_served`: however the socket takes the request, the server has got a beginning of it, and
all of it once the client reads. A server that goes by `Content-Length` reads the method, the path
and the body that were meant; the body of a create request is JSON with the values of the container.

`answer_read`: however the answer arrives, the client has its status and its body, sent whole or in
chunks. Where the connection breaks, it has no other status than this one or 0, and a beginning of
the body.

`container_started`: when a container is reported as started, Docker was asked to create it and to
start it, under an id that begins the one it gave, and is this one where the answer came whole.
-/

namespace Labios.Elastic

open Foundation Foundation.Json

/-! ## A run of the system calls -/

section Run

variable {method path body : List Char} {s s' : Exchange} {calls : List SocketCall}

/-- Nothing is written twice, or left out. -/
structure Exchange.Sound (request : List UInt8) (read : List UInt8) (s : Exchange) : Prop where
  split : s.sent ++ s.unsent = request
  whole : s.phase = .reading ∨ s.phase = .finished → s.unsent = []
  response : s.response = read

theorem readBytes_append (calls : List SocketCall) (c : SocketCall) :
    readBytes (calls ++ [c]) = readBytes calls ++ readBytes [c] :=
  List.flatMap_append

theorem Exchange.Sound.step {request : List UInt8} {calls : List SocketCall} {c : SocketCall}
    (h : s.Sound request (readBytes calls)) (hstep : s.step c = some s') :
    s'.Sound request (readBytes (calls ++ [c])) := by
  rw [readBytes_append]
  unfold Exchange.step at hstep
  cases c with
  | wrote n =>
      dsimp only at hstep
      split at hstep
      · next hn =>
          obtain rfl := Option.some.inj hstep
          refine ⟨?_, fun hphase => ?_, h.response.trans (List.append_nil _).symm⟩
          · dsimp only
            rw [List.append_assoc, List.take_append_drop, h.split]
          · dsimp only at hphase ⊢
            split at hphase
            · next hall => rw [hall, List.drop_length]
            · simp at hphase
      · cases hstep
  | writeInterrupted =>
      dsimp only at hstep
      split at hstep
      · obtain rfl := Option.some.inj hstep
        exact ⟨h.split, h.whole, h.response.trans (List.append_nil _).symm⟩
      · cases hstep
  | writeFailed =>
      dsimp only at hstep
      split at hstep
      · obtain rfl := Option.some.inj hstep
        refine ⟨h.split, fun hphase => ?_, h.response.trans (List.append_nil _).symm⟩
        simp at hphase
      · cases hstep
  | read data =>
      dsimp only at hstep
      split at hstep
      · next hread =>
          obtain rfl := Option.some.inj hstep
          refine ⟨h.split, fun _ => h.whole (.inl hread.1), ?_⟩
          show s.response ++ data = _
          rw [h.response]
          simp [readBytes]
      · cases hstep
  | readInterrupted =>
      dsimp only at hstep
      split at hstep
      · obtain rfl := Option.some.inj hstep
        exact ⟨h.split, h.whole, h.response.trans (List.append_nil _).symm⟩
      · cases hstep
  | readEnded =>
      dsimp only at hstep
      split at hstep
      · next hread =>
          obtain rfl := Option.some.inj hstep
          exact ⟨h.split, fun _ => h.whole (.inl hread), h.response.trans (List.append_nil _).symm⟩
      · cases hstep

theorem Exchange.sound_run {start : Exchange} {request : List UInt8} {before : List SocketCall}
    (h : start.Sound request (readBytes before)) (hexec : exec Exchange.step start calls = some s) :
    s.Sound request (readBytes (before ++ calls)) := by
  induction calls generalizing start before with
  | nil =>
      obtain rfl := Option.some.inj hexec
      rwa [List.append_nil]
  | cons c rest ih =>
      obtain ⟨t, hstep, hrest⟩ := exec_cons hexec
      have hnext := ih (h.step hstep) hrest
      rwa [List.append_assoc] at hnext

theorem Exchange.sound (hexec : exec Exchange.step (.start method path body) calls = some s) :
    s.Sound (asBytes (requestText method path body)) (readBytes calls) := by
  have hstart : (Exchange.start method path body).Sound (asBytes (requestText method path body))
      (readBytes []) := by
    refine ⟨rfl, fun hphase => ?_, rfl⟩
    simp [Exchange.start] at hphase
  exact Exchange.sound_run hstart hexec

end Run

/-! ## First occurrences -/

section Occurrences

variable {α : Type} [DecidableEq α] {text xs front rest : List α} {c : α}

theorem firstAt_eq {n : Nat} (hbefore : ∀ i < n, ¬text <+: xs.drop i) (hat : text <+: xs.drop n)
    (hn : n ≤ xs.length) : firstAt text xs = some n := by
  induction n generalizing xs with
  | zero => exact firstAt_of_begins hat
  | succ n ih =>
      cases xs with
      | nil => simp at hn
      | cons x xs =>
          rw [firstAt_cons (hbefore 0 (Nat.succ_pos n)),
            ih (fun i hi => hbefore (i + 1) (Nat.succ_lt_succ hi)) hat (Nat.le_of_succ_le_succ hn)]
          rfl

/-- A line that begins like the text and goes on otherwise. -/
theorem firstAt_line (hline : c ∉ front) (hother : ¬c :: text <+: c :: (front ++ rest)) :
    firstAt (c :: text) (c :: (front ++ rest)) =
      (firstAt (c :: text) rest).map (front.length + 1 + ·) := by
  rw [firstAt_cons hother, firstAt_append hline, Option.map_map]
  congr 1
  funext n
  show front.length + n + 1 = front.length + 1 + n
  omega

end Occurrences

/-! ## The request -/

/-- The characters are bytes. -/
def Bytes (text : List Char) : Prop := ∀ c ∈ text, c.toNat < 256

theorem asChars_asBytes {text : List Char} (h : Bytes text) : asChars (asBytes text) = text := by
  unfold asChars asBytes
  rw [List.map_map]
  refine (List.map_congr_left fun c hc => ?_).trans (List.map_id _)
  show Char.ofNat (UInt8.ofNat c.toNat).toNat = c
  rw [UInt8.toNat_ofNat_of_lt' (h c hc), Char.ofNat_toNat]

/-- A word of the first line. -/
def Word (text : List Char) : Prop := ∀ c ∈ text, c ≠ ' ' ∧ c ≠ '\r'

/-- Lines, each behind a break. -/
def linesText (lines : List (List Char)) : List Char := lines.flatMap fun l => '\r' :: '\n' :: l

/-- The lines that say what the body is. -/
def bodyLines (body : List Char) : List (List Char) :=
  if body ≠ [] then
    ["Content-Type: application/json".toList,
      "Content-Length: ".toList ++ (toString body.length).toList]
  else []

theorem Word.of_all {t : List Char} (h : t.all (fun c => c ≠ ' ' && c ≠ '\r') = true) : Word t := by
  intro c hc
  simpa using List.all_eq_true.mp h c hc

theorem Bytes.of_all {t : List Char} (h : t.all (·.toNat < 256) = true) : Bytes t := by
  intro c hc
  simpa using List.all_eq_true.mp h c hc

theorem Word.append {t u : List Char} (ht : Word t) (hu : Word u) :
    Word (t ++ u) :=
  fun c hc => (List.mem_append.mp hc).elim (ht c) (hu c)

theorem Bytes.append {t u : List Char} (ht : Bytes t) (hu : Bytes u) :
    Bytes (t ++ u) :=
  fun c hc => (List.mem_append.mp hc).elim (ht c) (hu c)

theorem bytes_toDigits (n : Nat) : Bytes (Nat.toDigits 10 n) := by
  intro c hc
  have hdigit : c.toNat ≤ 57 := (Char.isDigit_iff_toNat.mp (isDigit_of_mem hc)).2
  omega

def firstLine (method path : List Char) : List Char :=
  method ++ ' ' :: (path ++ ' ' :: "HTTP/1.1".toList)

def headerText (method path body : List Char) : List Char :=
  firstLine method path ++
    linesText ("Host: localhost".toList :: (bodyLines body ++ ["Connection: close".toList]))

theorem requestText_eq (method path body : List Char) :
    requestText method path body = headerText method path body ++ ("\r\n\r\n".toList ++ body) := by
  unfold requestText headerText firstLine linesText bodyLines
  by_cases hbody : body ≠ []
  · rw [if_pos hbody, if_pos hbody]
    simp
  · rw [if_neg hbody, if_neg hbody]
    simp

/-- The empty line stands behind the lines that are not empty. -/
theorem firstAt_emptyLine {lines : List (List Char)} (h : ∀ l ∈ lines, l ≠ [] ∧ '\r' ∉ l)
    (body : List Char) :
    firstAt "\r\n\r\n".toList (linesText lines ++ ("\r\n\r\n".toList ++ body)) =
      some (linesText lines).length := by
  induction lines with
  | nil => exact firstAt_of_begins (List.prefix_append _ _)
  | cons l lines ih =>
      obtain ⟨⟨hne, hl⟩, hrest⟩ := List.forall_mem_cons.mp h
      obtain ⟨c, l, rfl⟩ := List.exists_cons_of_ne_nil hne
      have hc : c ≠ '\r' := fun heq => hl (heq ▸ List.mem_cons_self)
      have hline : '\r' ∉ '\n' :: c :: l := by
        rw [List.mem_cons, not_or]
        exact ⟨by decide, hl⟩
      show firstAt ('\r' :: "\n\r\n".toList) ('\r' :: (('\n' :: c :: l) ++ linesText lines) ++ _) = _
      rw [List.cons_append, List.append_assoc, firstAt_line hline, show
        '\r' :: "\n\r\n".toList = "\r\n\r\n".toList from rfl, ih hrest]
      · show some (_ + _) = some ((('\r' :: '\n' :: c :: l) ++ linesText lines).length)
        rw [List.length_append]
        rfl
      · rintro ⟨t, ht⟩
        have hthird := (List.cons.inj (List.cons.inj (List.cons.inj ht).2).2).1
        exact hc hthird.symm

theorem mem_bodyLines {body l : List Char} (h : l ∈ bodyLines body) : l ≠ [] ∧ '\r' ∉ l := by
  unfold bodyLines at h
  split at h
  · rcases List.mem_cons.mp h with rfl | h
    · exact ⟨by decide, by decide⟩
    · obtain rfl := List.mem_singleton.mp h
      refine ⟨by simp, ?_⟩
      rw [List.mem_append, not_or, toList_toString]
      exact ⟨by decide, notMem_toDigits rfl _⟩
  · cases h

theorem carriage_notMem_firstLine {method path : List Char} (hmethod : Word method)
    (hpath : Word path) : '\r' ∉ firstLine method path := by
  unfold firstLine
  intro h
  rcases List.mem_append.mp h with h | h
  · exact (hmethod _ h).2 rfl
  · rcases List.mem_cons.mp h with h | h
    · exact absurd h (by decide)
    · rcases List.mem_append.mp h with h | h
      · exact (hpath _ h).2 rfl
      · exact absurd h (by decide)

/-- A line that does not say how long the body is. -/
theorem firstAt_otherLine {line rest : List Char} (hline : '\r' ∉ line)
    (hother : ¬"Content-Length: ".toList <+: line ++ rest) :
    firstAt "\r\nContent-Length: ".toList ('\r' :: '\n' :: (line ++ rest)) =
      (firstAt "\r\nContent-Length: ".toList rest).map (line.length + 2 + ·) := by
  have hbreak : '\r' ∉ '\n' :: line := by
    rw [List.mem_cons, not_or]
    exact ⟨by decide, hline⟩
  refine firstAt_line hbreak ?_
  intro h
  exact hother (List.cons_prefix_cons.mp (List.cons_prefix_cons.mp h).2).2

theorem linesText_cons (l : List Char) (lines : List (List Char)) :
    linesText (l :: lines) = '\r' :: '\n' :: (l ++ linesText lines) := by
  unfold linesText
  rw [List.flatMap_cons]
  rfl

theorem contentLength_headerText {method path : List Char} (hmethod : Word method)
    (hpath : Word path) (body : List Char) :
    contentLength (headerText method path body) = body.length := by
  have hfirst := carriage_notMem_firstLine hmethod hpath
  have hhost : ∀ rest, ¬"Content-Length: ".toList <+: "Host: localhost".toList ++ rest := by
    rintro rest ⟨t, ht⟩
    simp at ht
  have hclose : ∀ rest, ¬"Content-Length: ".toList <+: "Connection: close".toList ++ rest := by
    rintro rest ⟨t, ht⟩
    simp at ht
  have htype : ∀ rest,
      ¬"Content-Length: ".toList <+: "Content-Type: application/json".toList ++ rest := by
    rintro rest ⟨t, ht⟩
    simp at ht
  have hskip : ∀ rest, firstAt "\r\nContent-Length: ".toList (firstLine method path ++ rest) =
      (firstAt "\r\nContent-Length: ".toList rest).map ((firstLine method path).length + ·) :=
    fun rest => firstAt_append hfirst
  by_cases hbody : body ≠ []
  · set digits := (toString body.length).toList with hdigits
    set front := firstLine method path ++
      "\r\nHost: localhost\r\nContent-Type: application/json".toList with hfront
    have hheader : headerText method path body =
        front ++ ("\r\nContent-Length: ".toList ++ (digits ++ "\r\nConnection: close".toList)) := by
      unfold headerText bodyLines linesText
      rw [if_pos hbody, hfront]
      simp [hdigits]
    have hpos : firstAt "\r\nContent-Length: ".toList (headerText method path body) =
        some front.length := by
      unfold headerText bodyLines
      rw [if_pos hbody, hskip, linesText_cons, firstAt_otherLine (by decide) (hhost _),
        List.cons_append, linesText_cons, firstAt_otherLine (by decide) (htype _),
        List.cons_append, linesText_cons, firstAt_of_begins]
      · rw [hfront, List.length_append]
        rfl
      · rw [List.append_assoc]
        exact List.prefix_append _ _
    unfold contentLength
    rw [hpos]
    dsimp only
    have hdrop : (headerText method path body).drop (front.length + 18) =
        digits ++ "\r\nConnection: close".toList := by
      rw [hheader, ← List.drop_drop, List.drop_left]
      rfl
    have hall : ∀ c ∈ digits, c.isDigit = true := by
      rw [hdigits, toList_toString]
      exact fun c => isDigit_of_mem
    have hstop : "\r\nConnection: close".toList.takeWhile Char.isDigit = [] := by decide
    rw [hdrop, List.takeWhile_append_of_pos hall, hstop, List.append_nil,
      hdigits, toList_toString, Nat.ofDigitChars_ten_toDigits]
  · have hnone : firstAt "\r\nContent-Length: ".toList (headerText method path body) = none := by
      unfold headerText bodyLines
      rw [if_neg hbody, hskip, linesText_cons, firstAt_otherLine (by decide) (hhost _),
        List.nil_append, linesText_cons, firstAt_otherLine (by decide) (hclose _)]
      rfl
    unfold contentLength
    rw [hnone, not_not.mp hbody]
    rfl

theorem serveRequest_requestText {method path body : List Char} (hmethod : Word method)
    (hpath : Word path) :
    serveRequest (requestText method path body) = some { method, path, body } := by
  have hlines : ∀ l ∈ "Host: localhost".toList :: (bodyLines body ++ ["Connection: close".toList]),
      l ≠ [] ∧ '\r' ∉ l := by
    intro l hl
    rcases List.mem_cons.mp hl with rfl | hl
    · exact ⟨by decide, by decide⟩
    · rcases List.mem_append.mp hl with hl | hl
      · exact mem_bodyLines hl
      · obtain rfl := List.mem_singleton.mp hl
        exact ⟨by decide, by decide⟩
  have hempty : firstAt "\r\n\r\n".toList (requestText method path body) =
      some (headerText method path body).length := by
    have hskip : ∀ rest, firstAt "\r\n\r\n".toList (firstLine method path ++ rest) =
        (firstAt "\r\n\r\n".toList rest).map ((firstLine method path).length + ·) :=
      fun rest => firstAt_append (carriage_notMem_firstLine hmethod hpath)
    rw [requestText_eq, headerText, List.append_assoc, hskip, firstAt_emptyLine hlines,
      Option.map_some, List.length_append]
  have htake : (requestText method path body).take (headerText method path body).length =
      headerText method path body := by
    rw [requestText_eq, List.take_left]
  have hdrop : (requestText method path body).drop ((headerText method path body).length + 4) =
      body := by
    rw [requestText_eq, ← List.drop_drop, List.drop_left]
    rfl
  have hword : ∀ {word : List Char}, Word word → ' ' ∉ word := fun h hmem => (h _ hmem).1 rfl
  unfold serveRequest
  rw [hempty]
  dsimp only [Option.bind_eq_bind, Option.bind_some]
  rw [htake, hdrop]
  have hfirst : getline ' ' (headerText method path body) =
      some (method, path ++ ' ' :: ("HTTP/1.1".toList ++
        linesText ("Host: localhost".toList :: (bodyLines body ++ ["Connection: close".toList])))) := by
    unfold headerText firstLine
    rw [List.append_assoc, List.cons_append, getline_separator (hword hmethod), List.append_assoc]
    rfl
  rw [hfirst, Option.bind_some, getline_separator (hword hpath), Option.bind_some,
    contentLength_headerText hmethod hpath, if_pos rfl]

/-! ## The body of a create request -/

/-- The texts need no escapes. -/
structure ContainerSpec.Plain (spec : ContainerSpec) : Prop where
  image : Verbatim spec.image
  name : Verbatim spec.name
  env : ∀ e ∈ spec.env, Verbatim e
  network : Verbatim spec.network

def ContainerSpec.json (spec : ContainerSpec) : Json :=
  .obj
    [("Image".toList, .str spec.image), ("Env".toList, .arr (spec.env.map .str)),
      ("Labels".toList, .obj
        [("labios.elastic".toList, .str "true".toList), ("labios.worker".toList, .str spec.name)]),
      ("HostConfig".toList, .obj [("NetworkMode".toList, .str spec.network)])]

theorem verbatim_decide {t : List Char}
    (h : t.all (fun c => c ≠ '"' && c ≠ '\\' && 32 ≤ c.toNat) = true) : Verbatim t := by
  intro c hc
  have hall := List.all_eq_true.mp h c hc
  simpa [Unescaped, and_assoc] using hall

theorem reads_createBody {spec : ContainerSpec} (h : spec.Plain) :
    Reads (createBody spec) spec.json := by
  have hstr : ∀ {t : List Char}, Verbatim t → Reads (enclosed t) (.str t) :=
    fun ht => .str (stringBody_of_verbatim ht)
  have hlabels := Reads.obj (members_more
    (verbatim_decide (t := "labios.elastic".toList) (by decide))
    (hstr (verbatim_decide (t := "true".toList) (by decide)))
    (members_one (verbatim_decide (t := "labios.worker".toList) (by decide)) (hstr h.name)))
  have hhost := Reads.obj
    (members_one (verbatim_decide (t := "NetworkMode".toList) (by decide)) (hstr h.network))
  have hobj := Reads.obj
    (members_more (verbatim_decide (t := "Image".toList) (by decide)) (hstr h.image)
      (members_more (verbatim_decide (t := "Env".toList) (by decide)) (reads_pastedArray h.env)
        (members_more (verbatim_decide (t := "Labels".toList) (by decide)) hlabels
          (members_one (verbatim_decide (t := "HostConfig".toList) (by decide)) hhost))))
  have hitems : [','].intercalate (spec.env.map fun e => '"' :: (e ++ ['"'])) =
      pastedItems spec.env := rfl
  unfold createBody ContainerSpec.json
  rw [hitems]
  simpa [enclosed, pastedArray] using hobj

/-- What the server has got once the client reads. -/
theorem served_whole {method path body : List Char} (hmethod : Word method) (hpath : Word path)
    (hbytes : Bytes (requestText method path body)) {calls : List SocketCall} {s : Exchange}
    (hexec : exec Exchange.step (.start method path body) calls = some s)
    (hphase : s.phase = .reading ∨ s.phase = .finished) :
    serveRequest (asChars s.sent) = some { method, path, body } := by
  have hsound := Exchange.sound hexec
  have hwhole := hsound.split
  rw [hsound.whole hphase, List.append_nil] at hwhole
  rw [hwhole, asChars_asBytes hbytes]
  exact serveRequest_requestText hmethod hpath

theorem request_served {method path body : List Char} (hmethod : Word method) (hpath : Word path)
    (hbytes : Bytes (requestText method path body)) {calls : List SocketCall} {s : Exchange}
    (hexec : exec Exchange.step (.start method path body) calls = some s) :
    s.sent <+: asBytes (requestText method path body) ∧
      (s.phase = .reading ∨ s.phase = .finished →
        serveRequest (asChars s.sent) = some { method, path, body }) ∧
      ∀ spec : ContainerSpec, spec.Plain → Reads (createBody spec) spec.json := by
  refine ⟨⟨s.unsent, (Exchange.sound hexec).split⟩, ?_, fun _ => reads_createBody⟩
  exact served_whole hmethod hpath hbytes hexec

/-- A delete request that the socket takes in two pieces. -/
theorem request_served_delete :
    serveRequest (asChars (asBytes (requestText "DELETE".toList "/v1.41/containers/c1".toList []))) =
      some { method := "DELETE".toList, path := "/v1.41/containers/c1".toList, body := [] } :=
  (request_served (.of_all (by decide)) (.of_all (by decide)) (.of_all (by decide))
    (show exec Exchange.step (.start "DELETE".toList "/v1.41/containers/c1".toList [])
        [.wrote 20, .writeInterrupted, .wrote 56] =
      some {
        unsent := []
        sent := asBytes (requestText "DELETE".toList "/v1.41/containers/c1".toList [])
        phase := .reading } by decide +kernel)).2.1 (.inl rfl)

/-! ## The answer -/

/-- An answer as a server sends it. -/
structure Answer where
  version : List UInt8
  code : Nat
  /-- What stands behind the code, up to the empty line. -/
  header : List UInt8
  payload : List UInt8
  /-- What the payload means. -/
  body : List UInt8

namespace Answer

def codeText (a : Answer) : List UInt8 := asBytes (Nat.toDigits 10 a.code)

def head (a : Answer) : List UInt8 := a.version ++ 32 :: (a.codeText ++ a.header)

def text (a : Answer) : List UInt8 := a.head ++ (lineBreaks ++ a.payload)

def Chunked (a : Answer) : Prop := chunkedHeader <:+: a.head.map toLowerByte

structure Valid (a : Answer) : Prop where
  version : 32 ∉ a.version
  code : 100 ≤ a.code ∧ a.code < 1000
  /-- The empty line is the first one. -/
  header : ¬lineBreaks <:+: a.head ++ [13, 10, 13]
  plain : ¬a.Chunked → a.body = a.payload
  chunked : a.Chunked → ∃ chunks, ChunkedEncoding chunks a.payload ∧
    (∀ data ∈ chunks, data ≠ [] ∧ data.length ≤ sanityLimit) ∧ a.body = chunks.flatten

variable {a : Answer} {cut : List UInt8}

theorem length_codeText (h : a.Valid) : a.codeText.length = 3 := by
  have hlength : ∀ n < 1000, 100 ≤ n → (Nat.toDigits 10 n).length = 3 := by decide +kernel
  unfold codeText asBytes
  rw [List.length_map]
  exact hlength _ h.code.2 h.code.1

theorem stoi_codeText (h : a.Valid) : stoi (asChars a.codeText) = some (a.code : Int) := by
  have htext : (toString (a.code : Int)).toList = Nat.toDigits 10 a.code := by
    rw [toList_toString_int, if_neg (by omega), Int.natAbs_natCast]
  have hint : IsInt (a.code : Int) := by
    have hcode := h.code
    constructor <;> omega
  unfold codeText
  rw [asChars_asBytes (bytes_toDigits _), ← htext, stoi_toString hint]

/-- A cut of an answer has its status, or none. -/
theorem statusOf_cut (h : a.Valid) (hcut : cut <+: a.text) :
    statusOf cut = some 0 ∧ cut.length < a.head.length + 4 ∨
      statusOf cut = some (a.code : Int) := by
  have hhead : a.head.length = a.version.length + 1 + 3 + a.header.length := by
    unfold head
    rw [List.length_append, List.length_cons, List.length_append, length_codeText h]
    omega
  have htext :
      a.text = a.version ++ 32 :: (a.codeText ++ (a.header ++ (lineBreaks ++ a.payload))) := by
    unfold text head
    simp
  rw [htext] at hcut
  by_cases hshort : cut.length ≤ a.version.length
  · left
    have hversion : cut <+: a.version :=
      List.prefix_of_prefix_length_le hcut (List.prefix_append _ _) hshort
    have hnone : firstAt [32] cut = none := by
      rw [firstAt_eq_none_iff]
      intro hoccurs
      exact h.version (hversion.subset (hoccurs.subset List.mem_cons_self))
    unfold statusOf
    rw [hnone]
    exact ⟨rfl, by omega⟩
  · obtain ⟨more, rfl, hbehind⟩ := exists_of_prefix_append hcut (by omega)
    cases more with
    | nil => simp at hshort
    | cons b more =>
        obtain ⟨rfl, hmore⟩ := List.cons_prefix_cons.mp hbehind
        have hpos : firstAt [32] (a.version ++ 32 :: more) = some a.version.length := by
          rw [firstAt_append h.version, firstAt_of_begins (List.cons_prefix_cons.mpr ⟨rfl, by simp⟩)]
          rfl
        unfold statusOf
        rw [hpos]
        dsimp only
        by_cases hthree : a.version.length + 3 < (a.version ++ 32 :: more).length
        · right
          rw [List.length_append, List.length_cons] at hthree
          obtain ⟨rest, rfl, -⟩ := exists_of_prefix_append hmore (by rw [length_codeText h]; omega)
          have hdrop : (a.version ++ 32 :: (a.codeText ++ rest)).drop (a.version.length + 1) =
              a.codeText ++ rest := by
            rw [← List.drop_drop, List.drop_left]
            rfl
          rw [if_pos (by rw [List.length_append, List.length_cons]; omega), hdrop,
            ← length_codeText h, List.take_left, stoi_codeText h]
        · left
          rw [if_neg hthree]
          exact ⟨rfl, by omega⟩

/-- It has a beginning of the body. -/
theorem bodyOf_cut (h : a.Valid) (hcut : cut <+: a.text) :
    ∃ part, bodyOf cut = some part ∧ part <+: a.body ∧ (cut = a.text → part = a.body) := by
  have hsplit : a.text = (a.head ++ lineBreaks) ++ a.payload := (List.append_assoc ..).symm
  by_cases hshort : cut.length < a.head.length + 4
  · have hnone : firstAt lineBreaks cut = none := by
      unfold lineBreaks
      rw [firstAt_eq_none_iff]
      intro hoccurs
      have hwithin : cut <+: a.head ++ [13, 10, 13] := by
        refine List.prefix_of_prefix_length_le hcut ⟨10 :: a.payload, ?_⟩ ?_
        · unfold text lineBreaks
          simp
        · rw [List.length_append]
          show _ ≤ _ + 3
          omega
      exact h.header (hoccurs.trans hwithin.isInfix)
    refine ⟨[], ?_, List.nil_prefix, fun hall => ?_⟩
    · unfold bodyOf
      rw [hnone]
    · rw [hall, hsplit, List.length_append, List.length_append] at hshort
      have hfour : lineBreaks.length = 4 := rfl
      omega
  · have hlong : (a.head ++ lineBreaks).length ≤ cut.length := by
      rw [List.length_append]
      show _ + 4 ≤ _
      omega
    rw [hsplit] at hcut
    obtain ⟨more, rfl, hmore⟩ := exists_of_prefix_append hcut hlong
    have hpos : firstAt lineBreaks (a.head ++ lineBreaks ++ more) = some a.head.length := by
      refine firstAt_eq (fun i hi hat => ?_) ?_ ?_
      · refine h.header ?_
        have hsame : a.head ++ [13, 10, 13] <+: a.head ++ lineBreaks ++ more := by
          refine ⟨10 :: more, ?_⟩
          unfold lineBreaks
          simp
        have hbefore : lineBreaks <+: (a.head ++ [13, 10, 13]).drop i := by
          refine List.prefix_of_prefix_length_le hat (hsame.drop i) ?_
          rw [List.length_drop, List.length_append]
          show 4 ≤ _ + 3 - i
          omega
        exact hbefore.isInfix.trans (List.drop_suffix _ _).isInfix
      · rw [List.append_assoc, List.drop_left]
        exact List.prefix_append _ _
      · rw [List.append_assoc, List.length_append]
        omega
    have htake : (a.head ++ lineBreaks ++ more).take a.head.length = a.head := by
      rw [List.append_assoc, List.take_left]
    have hdrop : (a.head ++ lineBreaks ++ more).drop (a.head.length + 4) = more := by
      rw [List.append_assoc, ← List.drop_drop, List.drop_left]
      rfl
    have hall : a.head ++ lineBreaks ++ more = a.text → more = a.payload := by
      rw [hsplit]
      exact List.append_cancel_left
    unfold bodyOf
    rw [hpos]
    dsimp only
    rw [htake, hdrop]
    by_cases hchunked : a.Chunked
    · obtain ⟨chunks, hchunks, hsizes, hbody⟩ := h.chunked hchunked
      have hfound : (firstAt chunkedHeader (a.head.map toLowerByte)).isSome := by
        rw [Option.isSome_iff_ne_none]
        intro hnone
        exact (firstAt_eq_none_iff _ _ _).mp hnone hchunked
      obtain ⟨part, hpart, hfront, hwhole⟩ :=
        dechunkRest_encoding hchunks hsizes hmore (Nat.lt_succ_self _) []
      have hdechunk : dechunk more = .returned part := by
        rw [dechunk, dechunkLoop_eq, List.drop_zero, hpart, List.nil_append]
      rw [if_pos hfound, hdechunk]
      refine ⟨part, rfl, hbody ▸ hfront, fun heq => ?_⟩
      rw [hbody, hwhole (hall heq)]
    · have hmissing : ¬(firstAt chunkedHeader (a.head.map toLowerByte)).isSome := by
        rw [Option.isSome_iff_ne_none, not_not]
        exact (firstAt_eq_none_iff _ _ _).mpr hchunked
      rw [if_neg hmissing, h.plain hchunked]
      exact ⟨more, rfl, hmore, hall⟩

end Answer

/-- A client that has got a cut of an answer. -/
theorem parseResponse_cut {a : Answer} {cut : List UInt8} (h : a.Valid) (hcut : cut <+: a.text) :
    ∃ statusCode part, parseResponse cut = .ok { statusCode, body := asChars part } ∧
      (statusCode = 0 ∧ cut.length < a.head.length + 4 ∨ statusCode = a.code) ∧
      part <+: a.body ∧ (cut = a.text → part = a.body) := by
  obtain ⟨part, hpart, hfront, hwhole⟩ := Answer.bodyOf_cut h hcut
  unfold parseResponse
  rw [hpart]
  rcases Answer.statusOf_cut h hcut with ⟨hzero, hshort⟩ | hcode
  · rw [hzero]
    exact ⟨0, part, rfl, .inl ⟨rfl, hshort⟩, hfront, hwhole⟩
  · rw [hcode]
    exact ⟨a.code, part, rfl, .inr rfl, hfront, hwhole⟩

theorem Exchange.result_finished {s : Exchange} {strerror : String} (h : s.phase = .finished) :
    s.result strerror = some (parseResponse s.response) := by
  unfold Exchange.result
  rw [h]

theorem answer_read {method path body : List Char} {calls : List SocketCall} {s : Exchange}
    (hexec : exec Exchange.step (.start method path body) calls = some s)
    (hphase : s.phase = .finished) {a : Answer} (ha : a.Valid) (hread : readBytes calls <+: a.text)
    (strerror : String) :
    ∃ resp, s.result strerror = some (.ok resp) ∧
      (resp.statusCode = 0 ∨ resp.statusCode = a.code) ∧
      resp.body <+: asChars a.body ∧
      ((a.head ++ lineBreaks).length ≤ (readBytes calls).length → resp.statusCode = a.code) ∧
      (readBytes calls = a.text → resp.body = asChars a.body) := by
  obtain ⟨statusCode, part, hresult, hcode, hfront, hwhole⟩ := parseResponse_cut ha hread
  refine ⟨{ statusCode, body := asChars part }, ?_, hcode.imp_left And.left, ?_,
    fun hlong => ?_, fun hall => ?_⟩
  · rw [Exchange.result_finished hphase, (Exchange.sound hexec).response, hresult]
  · exact hfront.map _
  · rw [List.length_append] at hlong
    have hfour : lineBreaks.length = 4 := rfl
    exact hcode.resolve_left fun hzero => by omega
  · rw [hwhole hall]

/-- The answer to a create request, its body in one chunk. -/
def createdAnswer : Answer where
  version := asBytes "HTTP/1.1".toList
  code := 201
  header := asBytes " Created\r\nTransfer-Encoding: chunked".toList
  payload := asBytes "b\r\n\x7b\"Id\":\"c1\"\x7d\r\n0\r\n\r\n".toList
  body := asBytes "\x7b\"Id\":\"c1\"\x7d".toList

theorem valid_createdAnswer : createdAnswer.Valid where
  version := by decide
  code := by decide
  header := by decide +kernel
  plain := fun hplain => by
    have hchunked : createdAnswer.Chunked := by
      unfold Answer.Chunked
      decide +kernel
    exact absurd hchunked hplain
  chunked := fun _ => by
    refine ⟨[asBytes "\x7b\"Id\":\"c1\"\x7d".toList], ?_, by decide, rfl⟩
    exact @ChunkedEncoding.chunk [98] (asBytes "\x7b\"Id\":\"c1\"\x7d".toList) _ _
      (spellsHex_digit rfl) (@ChunkedEncoding.last [48] [13, 10] (spellsHex_digit rfl))

def elasticSpec : ContainerSpec where
  image := "labios-worker".toList
  name := "w100".toList
  env := ["LABIOS_WORKER_ID=100".toList, "LABIOS_WORKER_TIER=1".toList]
  network := "labios".toList

/-- The request goes out in two pieces, and the answer comes in two. -/
def createCalls : List SocketCall :=
  [.wrote 100, .writeInterrupted,
    .wrote
      ((requestText "POST".toList (createPath elasticSpec) (createBody elasticSpec)).length - 100),
    .read (createdAnswer.text.take 30), .readInterrupted, .read (createdAnswer.text.drop 30),
    .readEnded]

def created : Exchange where
  unsent := []
  sent := asBytes (requestText "POST".toList (createPath elasticSpec) (createBody elasticSpec))
  response := createdAnswer.text
  phase := .finished

theorem exec_createCalls : exec Exchange.step (.create elasticSpec) createCalls = some created := by
  decide +kernel

theorem answer_read_created :
    ∃ resp, created.result "" = some (.ok resp) ∧
      (createdAnswer.text = createdAnswer.text → resp.body = asChars createdAnswer.body) := by
  obtain ⟨resp, hresp, -, -, -, hbody⟩ :=
    answer_read exec_createCalls rfl valid_createdAnswer (by decide +kernel) ""
  exact ⟨resp, hresp, hbody⟩

/-! ## A container -/

theorem behindFirst_cut {pattern cut text rest : List Char} (hcut : cut <+: text)
    (hrest : behindFirst pattern cut = some rest) :
    ∃ more, behindFirst pattern text = some more ∧ rest <+: more := by
  have hshort : ∀ {cs rest : List Char}, behindFirst pattern cs = some rest →
      pattern.length ≤ cs.length := by
    intro cs
    induction cs with
    | nil =>
        intro rest h
        unfold behindFirst at h
        split at h
        · next hnil => rw [hnil]
        · cases h
    | cons c cs ih =>
        intro rest h
        unfold behindFirst at h
        split at h
        · next hbegins => exact (List.isPrefixOf_iff_prefix.mp hbegins).length_le
        · exact (ih h).trans (Nat.le_succ _)
  induction cut generalizing text with
  | nil =>
      unfold behindFirst at hrest
      split at hrest
      · next hnil =>
          obtain rfl := Option.some.inj hrest
          refine ⟨text, ?_, List.nil_prefix⟩
          cases text with
          | nil => simp [behindFirst, hnil]
          | cons c cs => simp [behindFirst, hnil]
      · cases hrest
  | cons c cut ih =>
      obtain ⟨text, rfl, hbehind⟩ : ∃ cs, text = c :: cs ∧ cut <+: cs := by
        obtain ⟨t, rfl⟩ := hcut
        exact ⟨cut ++ t, rfl, List.prefix_append _ _⟩
      have hlength := hshort hrest
      have hsame : pattern <+: c :: cut ↔ pattern <+: c :: text :=
        ⟨fun h => h.trans hcut, fun h => List.prefix_of_prefix_length_le h hcut hlength⟩
      unfold behindFirst at hrest ⊢
      simp only [List.isPrefixOf_iff_prefix] at hrest ⊢
      by_cases hbegins : pattern <+: c :: cut
      · rw [if_pos hbegins, Option.some.injEq] at hrest
        rw [if_pos (hsame.mp hbegins)]
        exact ⟨_, rfl, hrest ▸ hcut.drop _⟩
      · rw [if_neg hbegins] at hrest
        rw [if_neg (hsame.not.mp hbegins)]
        exact ih hbehind hrest

theorem takeWhile_cut {α : Type} (p : α → Bool) {cut text : List α} (h : cut <+: text) :
    cut.takeWhile p <+: text.takeWhile p := by
  obtain ⟨t, rfl⟩ := h
  rw [List.takeWhile_append]
  split
  · next hall =>
      rw [(List.takeWhile_sublist p).eq_of_length hall]
      exact List.prefix_append _ _
  · exact List.prefix_rfl

theorem containerIdOf_cut {cut text : List Char} {id : String} (hcut : cut <+: text)
    (hid : containerIdOf cut = some id) :
    ∃ full, containerIdOf text = some full ∧ id.toList <+: full.toList := by
  unfold containerIdOf at hid ⊢
  obtain ⟨rest, hrest, rfl⟩ := Option.map_eq_some_iff.mp hid
  obtain ⟨more, hmore, hfront⟩ := behindFirst_cut hcut hrest
  refine ⟨_, by rw [hmore]; rfl, ?_⟩
  rw [String.toList_ofList, String.toList_ofList]
  exact takeWhile_cut _ hfront

theorem mem_behindFirst {pattern cs rest : List Char} (h : behindFirst pattern cs = some rest) :
    rest ⊆ cs := by
  induction cs with
  | nil =>
      unfold behindFirst at h
      split at h
      · exact Option.some.inj h ▸ List.Subset.refl _
      · cases h
  | cons c cs ih =>
      unfold behindFirst at h
      split at h
      · exact Option.some.inj h ▸ List.drop_subset _ _
      · exact List.subset_cons_of_subset c (ih h)

theorem mem_containerIdOf {body : List Char} {id : String} (h : containerIdOf body = some id) :
    id.toList ⊆ body := by
  unfold containerIdOf at h
  obtain ⟨rest, hrest, rfl⟩ := Option.map_eq_some_iff.mp h
  rw [String.toList_ofList]
  exact List.Subset.trans (List.takeWhile_subset _) (mem_behindFirst hrest)

theorem bytes_asChars (bytes : List UInt8) : Bytes (asChars bytes) := by
  intro c hc
  obtain ⟨b, -, rfl⟩ := List.mem_map.mp hc
  have hvalid : b.toNat.isValidChar := .inl (b.toNat_lt.trans (by decide))
  unfold Char.ofNat
  rw [dif_pos hvalid]
  exact b.toNat_lt

theorem body_of_parseResponse {response : List UInt8} {resp : HttpResponse}
    (h : parseResponse response = .ok resp) : ∃ part, resp.body = asChars part := by
  unfold parseResponse at h
  split at h
  · cases h
  · split at h
    · cases h
    · next part _ =>
        obtain rfl := Except.ok.inj h
        exact ⟨part, rfl⟩

/-- An exchange that leads to a second one has come to its end. -/
theorem finished_of_created {s second : Exchange} {created : HttpResult} {strerror : String}
    (hresult : s.result strerror = some created)
    (hsecond : Exchange.startCreated created = some second) :
    s.phase = .finished ∧ created = parseResponse s.response := by
  unfold Exchange.result at hresult
  split at hresult
  · cases hresult
  · cases hresult
  · obtain rfl := Option.some.inj hresult
    cases hsecond
  · next hphase => exact ⟨hphase, (Option.some.inj hresult).symm⟩

theorem container_started {spec : ContainerSpec} (hname : Word spec.name)
    (hbytes : Bytes (requestText "POST".toList (createPath spec) (createBody spec)))
    {create start : List SocketCall} {s t second : Exchange} {created started : HttpResult}
    {strerror id : String} (hcreate : exec Exchange.step (.create spec) create = some s)
    (hcreated : s.result strerror = some created)
    (hsecond : Exchange.startCreated created = some second)
    (hstart : exec Exchange.step second start = some t)
    (hstarted : t.result strerror = some started)
    (hid : createAndStart created started = .ok id) (hword : Word id.toList) :
    serveRequest (asChars s.sent) =
        some { method := "POST".toList, path := createPath spec, body := createBody spec } ∧
      serveRequest (asChars t.sent) =
        some { method := "POST".toList, path := startPath id.toList, body := [] } ∧
      ∀ a : Answer, a.Valid → readBytes create <+: a.text →
        a.code = 201 ∧ ∃ full, containerIdOf (asChars a.body) = some full ∧
          id.toList <+: full.toList ∧ (readBytes create = a.text → id = full) := by
  have ⟨⟨resp, hresp, hcode, hfound⟩, ⟨startResp, hstartResp, _⟩⟩ := createAndStart_eq_ok.mp hid
  obtain ⟨hphase, hparsed⟩ := finished_of_created hcreated hsecond
  obtain rfl : Exchange.start "POST".toList (startPath id.toList) [] = second := by
    unfold Exchange.startCreated at hsecond
    rw [hresp] at hsecond
    dsimp only at hsecond
    rw [if_neg (not_not_intro hcode), hfound] at hsecond
    exact Option.some.inj hsecond
  have hpost : Word "POST".toList := .of_all (by decide)
  refine ⟨served_whole hpost ?_ hbytes hcreate (.inr hphase), ?_, fun a ha hcut => ?_⟩
  · refine Word.append ?_ hname
    exact .of_all (by decide)
  · have hfinished : t.phase = .finished := by
      rw [hstartResp] at hstarted
      unfold Exchange.result at hstarted
      split at hstarted
      · cases hstarted
      · cases hstarted
      · cases hstarted
      · next hend => exact hend
    refine served_whole hpost ?_ ?_ hstart (.inr hfinished)
    · have hstartPath : Word (startPath id.toList) := by
        refine Word.append ?_ (hword.append ?_)
        · exact .of_all (by decide)
        · exact .of_all (by decide)
      exact hstartPath
    · have hid : Bytes id.toList := by
        rw [hparsed] at hresp
        obtain ⟨part, hpart⟩ := body_of_parseResponse hresp
        rw [hpart] at hfound
        exact fun c hc => bytes_asChars part c (mem_containerIdOf hfound hc)
      refine Bytes.append (t := "POST".toList) ?_ ?_
      · exact .of_all (by decide)
      · refine Bytes.append (t := " /v1.41/containers/".toList) ?_ (.append (hid.append ?_) ?_)
        · exact .of_all (by decide)
        · exact .of_all (by decide)
        · exact .of_all (by decide)
  · obtain ⟨statusCode, part, hresult, hstatus, hfront, hwhole⟩ := parseResponse_cut ha hcut
    rw [hparsed, (Exchange.sound hcreate).response, hresult, Except.ok.injEq] at hresp
    subst hresp
    dsimp only at hcode hfound
    refine ⟨?_, ?_⟩
    · rcases hstatus with ⟨hzero, -⟩ | hstatus
      · omega
      · omega
    · obtain ⟨full, hfull, hbegins⟩ := containerIdOf_cut (hfront.map _) hfound
      refine ⟨full, hfull, hbegins, fun hall => ?_⟩
      rw [hwhole hall] at hfound
      exact Option.some.inj (hfound.symm.trans hfull)

theorem container_started_chunked :
    ∃ full, containerIdOf (asChars createdAnswer.body) = some full ∧
      "c1".toList <+: full.toList ∧ (readBytes createCalls = createdAnswer.text → "c1" = full) :=
  ((container_started (.of_all (by decide)) (.of_all (by decide +kernel)) exec_createCalls
    (show created.result "" = some (parseResponse createdAnswer.text) from rfl)
    (show Exchange.startCreated _ = some (.start "POST".toList (startPath "c1".toList) []) by
      decide +kernel)
    (show exec Exchange.step _
        [.wrote (requestText "POST".toList (startPath "c1".toList) []).length,
          .read (asBytes "HTTP/1.1 204 No Content\r\n\r\n".toList), .readEnded] =
      some {
        unsent := []
        sent := asBytes (requestText "POST".toList (startPath "c1".toList) [])
        response := asBytes "HTTP/1.1 204 No Content\r\n\r\n".toList
        phase := .finished } by decide +kernel)
    rfl (show createAndStart _ _ = .ok "c1" by decide +kernel) (.of_all (by decide))).2.2
    createdAnswer valid_createdAnswer (by decide +kernel)).2

end Labios.Elastic
