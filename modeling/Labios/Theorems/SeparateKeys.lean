import Labios.Client.Uri
import Labios.Storage.Places
import Labios.Storage.Tree
import Labios.Workspace.Redis

/-!
# The key-value backend on Redis

`KVBackend` of `labios/backend/kv_backend.cpp` as the commands that it sends: the data, and beside
it a hash with the label's metadata, both possibly with a deadline. At the time of a `put` nothing
but the data can be seen of it by `get` (`putRedis_refines`).
-/

namespace Labios

open Foundation

/-- `std::to_string` of a number in a hash field. -/
def fieldNumber (n : Nat) : RedisInt := Fin.ofNat (2 ^ 63) n

namespace KVBackend

/-- The commands of `put`. -/
def putCommands (keyPrefix : String) (label : LabelData) (data : List UInt8) :
    List RedisCommand :=
  let key := makeKey keyPrefix label
  let metaKey := key ++ ":meta"
  [.set key data,
    .hset metaKey "intent" (fieldNumber label.intent.ctorIdx),
    .hset metaKey "isolation" (fieldNumber label.isolation.ctorIdx),
    .hset metaKey "priority" (fieldNumber label.priority.toNat)] ++
      if 0 < label.ttlSeconds then
        [.expire key label.ttlSeconds, .expire metaKey label.ttlSeconds]
      else []

def putRedis (keyPrefix : String) (label : LabelData) (data : List UInt8) (now : Nat) (r : Redis) :
    Redis :=
  (putCommands keyPrefix label data).foldl (RedisCommand.run now) r

/-- A key of another type than a string is not found either. -/
def getRedis (keyPrefix : String) (label : LabelData) (now : Nat) (r : Redis) :
    Except String (List UInt8) :=
  match r.get now (makeKey keyPrefix label) with
  | none => .error ("key not found: " ++ makeKey keyPrefix label)
  | some _ => .ok (r.getBinary now (makeKey keyPrefix label))

/-- It reads the map of keys to data. -/
theorem getRedis_eq (keyPrefix : String) (label : LabelData) (now : Nat) (r : Redis)
    (table : String → Option (List UInt8)) :
    getRedis keyPrefix label now r = get keyPrefix label { redis := r.get now, table } := by
  unfold getRedis get Redis.getBinary
  dsimp only
  cases r.get now (makeKey keyPrefix label) with
  | none => rfl
  | some _ => rfl

/-! ## What other keys see -/

variable {keyPrefix x : String} {label : LabelData} {data : List UInt8} {now later : Nat}
  {r : Redis}

/-- Another key, but for the key of the metadata that get a deadline. -/
def Apart (keyPrefix : String) (label : LabelData) (x : String) : Prop :=
  x ≠ makeKey keyPrefix label ∧ (0 < label.ttlSeconds → x ≠ makeKey keyPrefix label ++ ":meta")

theorem putCommands_hidden (h : Apart keyPrefix label x) :
    ∀ c ∈ putCommands keyPrefix label data, c.Hides RedisValue.asString x := by
  obtain ⟨hkey, hmeta⟩ := h
  have hfields : ∀ (field : String) (n : RedisInt),
      (RedisCommand.hset (makeKey keyPrefix label ++ ":meta") field n).Hides
        RedisValue.asString x :=
    fun field n => .inr fun o => RedisValue.asString_withField o
  intro c hc
  rcases List.mem_append.mp hc with hc | hc
  · simp only [List.mem_cons, List.not_mem_nil, or_false] at hc
    rcases hc with rfl | rfl | rfl | rfl
    · exact hkey
    · exact hfields _ _
    · exact hfields _ _
    · exact hfields _ _
  · split at hc
    · next httl =>
        simp only [List.mem_cons, List.not_mem_nil, or_false] at hc
        rcases hc with rfl | rfl
        · exact hkey
        · exact hmeta httl
    · exact absurd hc List.not_mem_nil

/-- At no later time does a `put` show at a key apart from it. -/
theorem get_putRedis_of_apart (h : Apart keyPrefix label x) (hle : now ≤ later) :
    (putRedis keyPrefix label data now r).get later x = r.get later x :=
  RedisCommand.hides_foldl (putCommands_hidden h) hle r

/-- Right away `get` does not see the command. -/
def Unseen (now : Nat) (c : RedisCommand) : Prop :=
  ∀ (r : Redis) (x : String), (c.run now r).get now x = r.get now x

theorem unseen_hset (now : Nat) (key field : String) (n : RedisInt) :
    Unseen now (.hset key field n) := fun _ _ =>
  Keyspace.view_modify RedisValue.asString (fun o => RedisValue.asString_withField o)
    (Nat.le_refl now)

/-- A deadline lies in the future. -/
theorem unseen_expire (now : Nat) (key : String) {seconds : UInt32} (h : 0 < seconds) :
    Unseen now (.expire key seconds) := by
  intro r x
  have hpos : 0 < seconds.toNat := UInt32.lt_iff_toNat_lt.mp h
  have hlt : now < now + seconds.toNat * 1000000 :=
    Nat.lt_add_of_pos_right (Nat.mul_pos hpos (by decide))
  exact congrArg RedisValue.asString (Keyspace.value_expire_now hlt)

theorem unseen_foldl {commands : List RedisCommand} (h : ∀ c ∈ commands, Unseen now c) (r : Redis)
    (x : String) : (commands.foldl (RedisCommand.run now) r).get now x = r.get now x := by
  induction commands generalizing r with
  | nil => rfl
  | cons c rest ih =>
      obtain ⟨hc, hrest⟩ := List.forall_mem_cons.mp h
      exact (ih hrest (c.run now r)).trans (hc r x)

/-- Behind the data nothing is sent that `get` sees right away. -/
theorem putCommands_eq (keyPrefix : String) (label : LabelData) (data : List UInt8) (now : Nat) :
    ∃ rest, putCommands keyPrefix label data = .set (makeKey keyPrefix label) data :: rest ∧
      ∀ c ∈ rest, Unseen now c := by
  refine ⟨_, rfl, fun c hc => ?_⟩
  rcases List.mem_append.mp hc with hc | hc
  · simp only [List.mem_cons, List.not_mem_nil, or_false] at hc
    rcases hc with rfl | rfl | rfl
    · exact unseen_hset now _ _ _
    · exact unseen_hset now _ _ _
    · exact unseen_hset now _ _ _
  · split at hc
    · next httl =>
        simp only [List.mem_cons, List.not_mem_nil, or_false] at hc
        rcases hc with rfl | rfl
        · exact unseen_expire now _ httl
        · exact unseen_expire now _ httl
    · exact absurd hc List.not_mem_nil

/-- At the time of a `put`, what `get` can see changes as in the map of keys to data. -/
theorem putRedis_refines (keyPrefix : String) (label : LabelData) (data : List UInt8) (now : Nat)
    (r : Redis) :
    (putRedis keyPrefix label data now r).get now =
      Function.update (r.get now) (makeKey keyPrefix label) (some data) := by
  obtain ⟨rest, hcommands, hrest⟩ := putCommands_eq keyPrefix label data now
  funext x
  unfold putRedis
  rw [hcommands, List.foldl_cons, unseen_foldl hrest, Function.update_apply]
  by_cases hx : x = makeKey keyPrefix label
  · subst hx
    rw [if_pos rfl]
    exact congrArg RedisValue.asString (Keyspace.value_store_self _)
  · rw [if_neg hx]
    exact congrArg RedisValue.asString (Keyspace.value_store_ne hx _ now)

end KVBackend
end Labios

/-!
## Do different URIs have different places?

Authority and path of a URI make up the key of the key-value backend alone. Files have no
authority, and their paths are normalized; rows have no authority either, and one leading slash
less. Where the places differ, a `put` to the one URI leaves what a `get` from the other returns
(`separate_keys`).
-/

namespace Labios

open Foundation LexPath

/-! ## Files -/

namespace PosixTree

/-- The names under the root that a URI stands for. -/
def uriNames (uri : String) : Option (List (List Char)) :=
  (sanitizeRelativePath (ofText (stripLeadingSlash (parseUri uri).path.toList))).map
    LexPath.names

/-- A `put` to the first URI leaves the second alone: the second is neither the same file nor a
directory on the way to it. -/
def FilesApart (dest source : String) : Prop :=
  ∀ names ∈ uriNames dest, ∀ names' ∈ uriNames source, ¬names' <+: names

variable {r : Root} {os : OperatingSystem} {t : Tree} {p : List (List Char)}

/-- A sanitized path stands under the root. -/
theorem map_fullPath (raw : LexPath) :
    ((sanitizeRelativePath raw).map fun relative => (fullPath r.path relative, (0 : UInt64))) =
      (sanitizeRelativePath raw).map fun relative => (r.under relative, 0) := by
  cases hq : sanitizeRelativePath raw with
  | none => rfl
  | some q => rw [Option.map_some, Option.map_some, fullPath_under hq]

theorem resolveDest_uri (p : UriPut) :
    resolveDest r.path p.label =
      (sanitizeRelativePath
        (ofText (stripLeadingSlash (parseUri p.label.destUri).path.toList))).map
          fun relative => (r.under relative, 0) := by
  unfold resolveDest
  rw [if_pos p.toUri]
  exact map_fullPath _

theorem resolveSource_uri (g : UriGet) :
    resolveSource r.path g.label =
      (sanitizeRelativePath
        (ofText (stripLeadingSlash (parseUri g.label.sourceUri).path.toList))).map
          fun relative => (r.under relative, 0) := by
  unfold resolveSource
  rw [if_pos g.fromUri]
  exact map_fullPath _

/-- A `put` changes nothing but its file and the missing directories on the way. -/
theorem put_tree (p : UriPut) {names : List (List Char)}
    (h : ∀ path offset, resolveDest r.path p.label = some (path, offset) → ¬names <+: path.names) :
    (put os r.path p.label p.data t).tree names = t names := by
  unfold put
  cases hresolve : resolveDest r.path p.label with
  | none => rfl
  | some resolved =>
      obtain ⟨path, offset⟩ := resolved
      have hapart := h path offset hresolve
      have hne : names ≠ path.names := by
        rintro rfl
        exact hapart List.prefix_rfl
      have hmade : (createDirectories os path.parentPath t).2.1 names = t names := by
        refine (makeDirectories_tree os [] path.parentPath.names t names).resolve_right ?_
        rintro ⟨-, -, hbegins⟩
        rw [List.nil_append] at hbegins
        exact hapart (hbegins.trans path.names_parentPath)
      dsimp only
      generalize createDirectories os path.parentPath t = made at hmade ⊢
      obtain ⟨made, t', touched⟩ := made
      cases made with
      | false => exact hmade
      | true =>
          dsimp only
          split
          · exact hmade
          · split
            · exact (Function.update_of_ne hne _ _).trans hmade
            · exact (Function.update_of_ne hne _ _).trans hmade

/-- A `get` looks at its file alone. -/
theorem get_congr (g : UriGet) {t' : Tree}
    (h : ∀ path offset, resolveSource r.path g.label = some (path, offset) →
      t' path.names = t path.names) :
    (get os r.path g.label t').result = (get os r.path g.label t).result := by
  unfold get
  cases hresolve : resolveSource r.path g.label with
  | none => rfl
  | some resolved =>
      obtain ⟨path, offset⟩ := resolved
      dsimp only
      rw [h path offset hresolve]

theorem get_put_of_apart (os os' : OperatingSystem) (p : UriPut) (g : UriGet)
    (h : FilesApart p.label.destUri g.label.sourceUri) :
    (get os' r.path g.label (put os r.path p.label p.data t).tree).result =
      (get os' r.path g.label t).result := by
  refine get_congr g fun path offset hsource => put_tree p fun path' offset' hdest => ?_
  rw [resolveSource_uri g] at hsource
  rw [resolveDest_uri p] at hdest
  obtain ⟨q, hq, hpath⟩ := Option.map_eq_some_iff.mp hsource
  obtain ⟨q', hq', hpath'⟩ := Option.map_eq_some_iff.mp hdest
  obtain ⟨rfl, -⟩ := Prod.mk.inj hpath
  obtain ⟨rfl, -⟩ := Prod.mk.inj hpath'
  rw [r.names_under, r.names_under, List.prefix_append_right_inj]
  exact h _ (Option.mem_def.mpr (Option.map_eq_some_iff.mpr ⟨q', hq', rfl⟩)) _
    (Option.mem_def.mpr (Option.map_eq_some_iff.mpr ⟨q, hq, rfl⟩))

end PosixTree

/-! ## Rows -/

theorem SQLiteBackend.get_put_of_ne (p : UriPut) (g : UriGet) (s : KeyedStores)
    (h : uriKey g.label.sourceUri ≠ uriKey p.label.destUri) :
    get g.label (put p.label p.data s).2 = get g.label s := by
  have hsource : extractKey g.label = uriKey g.label.sourceUri := by
    rw [extractKey_of_uri (keyUri_ne g.fromUri), keyUri_of_no_destUri g.onlySource]
  have hdest : extractKey p.label = uriKey p.label.destUri := by
    have hkey := keyUri_of_destUri p.toUri
    rw [extractKey_of_uri (hkey ▸ p.toUri), hkey]
  have hother : (put p.label p.data s).2.table (extractKey g.label) =
      s.table (extractKey g.label) := by
    rw [hsource]
    show Function.update s.table (extractKey p.label) (some p.data) _ = _
    rw [hdest, Function.update_of_ne h]
  unfold get
  rw [hother]

/-! ## Entries -/

namespace KVBackend

/-- Authority and path can be read back from the key. -/
theorem uriKey_injective {keyPrefix uri uri' : String} (h : (parseUri uri).scheme = "kv")
    (h' : (parseUri uri').scheme = "kv") (heq : uriKey keyPrefix uri = uriKey keyPrefix uri') :
    (parseUri uri).authority = (parseUri uri').authority ∧
      (parseUri uri).path = (parseUri uri').path := by
  have hfile : (parseUri uri).scheme ≠ "file" := by
    rw [h]
    decide
  have hfile' : (parseUri uri').scheme ≠ "file" := by
    rw [h']
    decide
  obtain ⟨hauthority, hpath⟩ := parts_of_scheme hfile
  obtain ⟨hauthority', hpath'⟩ := parts_of_scheme hfile'
  have hlist : (parseUri uri).authority.toList ++ (parseUri uri).path.toList =
      (parseUri uri').authority.toList ++ (parseUri uri').path.toList := by
    have hchars := congrArg String.toList heq
    unfold uriKey at hchars
    rw [String.toList_append, String.toList_append, String.toList_append, String.toList_append,
      List.append_assoc, List.append_assoc] at hchars
    exact List.append_cancel_left hchars
  -- the authority has no slash, and the path is empty or begins with one
  obtain ⟨heqAuthority, heqPath⟩ :=
    append_inj_of_separator hauthority hauthority' hpath hpath' hlist
  exact ⟨String.toList_inj.mp heqAuthority, String.toList_inj.mp heqPath⟩

theorem get_put_of_ne (keyPrefix : String) (p : UriPut) (g : UriGet) {now later : Nat}
    (hle : now ≤ later) (r : Redis)
    (hne : uriKey keyPrefix g.label.sourceUri ≠ uriKey keyPrefix p.label.destUri)
    (hmeta : 0 < p.label.ttlSeconds →
      uriKey keyPrefix g.label.sourceUri ≠ uriKey keyPrefix p.label.destUri ++ ":meta") :
    getRedis keyPrefix g.label later (putRedis keyPrefix p.label p.data now r) =
      getRedis keyPrefix g.label later r := by
  have hsource : makeKey keyPrefix g.label = uriKey keyPrefix g.label.sourceUri := by
    rw [makeKey_of_uri (keyUri_ne g.fromUri), keyUri_of_no_destUri g.onlySource]
  have hdest : makeKey keyPrefix p.label = uriKey keyPrefix p.label.destUri := by
    have hkey := keyUri_of_destUri p.toUri
    rw [makeKey_of_uri (hkey ▸ p.toUri), hkey]
  have hapart : Apart keyPrefix p.label (makeKey keyPrefix g.label) := by
    rw [hsource]
    unfold Apart
    rw [hdest]
    exact ⟨hne, hmeta⟩
  unfold getRedis Redis.getBinary
  rw [get_putRedis_of_apart hapart hle]

end KVBackend

/-- **Separate keys.** A `put` to one URI leaves what a `get` from another of its scheme returns:
for files, if the second is neither the first's file nor a directory on the way to it; for rows,
if the paths differ in more than one leading slash; for entries, if authority or path differ and
the second is not where the first's metadata get a deadline. -/
theorem separate_keys (p : UriPut) (g : UriGet) :
    (PosixTree.FilesApart p.label.destUri g.label.sourceUri →
      ∀ (r : Root) (os os' : OperatingSystem) (t : Tree),
        (PosixTree.get os' r.path g.label (PosixTree.put os r.path p.label p.data t).tree).result =
          (PosixTree.get os' r.path g.label t).result) ∧
    (SQLiteBackend.uriKey g.label.sourceUri ≠ SQLiteBackend.uriKey p.label.destUri →
      ∀ s : KeyedStores,
        SQLiteBackend.get g.label (SQLiteBackend.put p.label p.data s).2 =
          SQLiteBackend.get g.label s) ∧
    ((parseUri p.label.destUri).scheme = "kv" → (parseUri g.label.sourceUri).scheme = "kv" →
      ((parseUri g.label.sourceUri).authority ≠ (parseUri p.label.destUri).authority ∨
        (parseUri g.label.sourceUri).path ≠ (parseUri p.label.destUri).path) →
      ∀ keyPrefix : String,
        (0 < p.label.ttlSeconds → KVBackend.uriKey keyPrefix g.label.sourceUri ≠
          KVBackend.uriKey keyPrefix p.label.destUri ++ ":meta") →
        ∀ (r : Redis) (now later : Nat), now ≤ later →
          KVBackend.getRedis keyPrefix g.label later
              (KVBackend.putRedis keyPrefix p.label p.data now r) =
            KVBackend.getRedis keyPrefix g.label later r) := by
  refine ⟨fun h _ os os' _ => PosixTree.get_put_of_apart os os' p g h,
    fun h s => SQLiteBackend.get_put_of_ne p g s h, ?_⟩
  intro hdest hsource hdiffer keyPrefix hmeta r now later hle
  refine KVBackend.get_put_of_ne keyPrefix p g hle r (fun heq => ?_) hmeta
  obtain ⟨hauthority, hpath⟩ := KVBackend.uriKey_injective hsource hdest heq
  exact hdiffer.elim (fun hne => hne hauthority) (fun hne => hne hpath)

/-- An operating system that grants everything; a directory reads as no bytes. -/
def lenient : OperatingSystem where
  grants := fun _ => true
  message := fun _ => ""
  readDirectory := fun _ => .ok []

def putTo (uri : String) (h : uri ≠ "") : UriPut := ⟨{ destUri := uri, ttlSeconds := 1 }, [7], h⟩

def getFrom (uri : String) (h : uri ≠ "") : UriGet := ⟨{ sourceUri := uri }, h, rfl⟩

def storeRoot : Root where
  path := LexPath.ofText "/store".toList
  rooted := by decide
  normal := by decide

/-- What a `get` of the second URI returns, before and after a `put` to the first. -/
def aroundPut (p : UriPut) (g : UriGet) (t : Tree) :
    Except String (List UInt8) × Except String (List UInt8) :=
  ((PosixTree.get lenient storeRoot.path g.label t).result,
    (PosixTree.get lenient storeRoot.path g.label
      (PosixTree.put lenient storeRoot.path p.label p.data t).tree).result)

theorem separate_keys_siblings :
    (∀ t : Tree,
      (aroundPut (putTo "kv://h/a" (by decide)) (getFrom "kv://h/b" (by decide)) t).2 =
        (aroundPut (putTo "kv://h/a" (by decide)) (getFrom "kv://h/b" (by decide)) t).1) ∧
      (∀ s : KeyedStores,
        SQLiteBackend.get { sourceUri := "kv://h/b" }
            (SQLiteBackend.put { destUri := "kv://h/a", ttlSeconds := 1 } [7] s).2 =
          SQLiteBackend.get { sourceUri := "kv://h/b" } s) ∧
      ∀ r : Redis, KVBackend.getRedis "" { sourceUri := "kv://h/b" } 5
          (KVBackend.putRedis "" { destUri := "kv://h/a", ttlSeconds := 1 } [7] 3 r) =
        KVBackend.getRedis "" { sourceUri := "kv://h/b" } 5 r := by
  obtain ⟨hfiles, hrows, hentries⟩ :=
    separate_keys (putTo "kv://h/a" (by decide)) (getFrom "kv://h/b" (by decide))
  have hdest : PosixTree.uriNames "kv://h/a" = some ["a".toList] := by decide
  have hsource : PosixTree.uriNames "kv://h/b" = some ["b".toList] := by decide
  refine ⟨fun t => hfiles ?_ storeRoot lenient lenient t, hrows (by decide), fun r => ?_⟩
  · intro names hnames names' hnames'
    have hnames : PosixTree.uriNames "kv://h/a" = some names := hnames
    have hnames' : PosixTree.uriNames "kv://h/b" = some names' := hnames'
    rw [hdest] at hnames
    rw [hsource] at hnames'
    obtain rfl := Option.some.inj hnames
    obtain rfl := Option.some.inj hnames'
    decide
  · exact hentries (by decide) (by decide) (.inr (by decide)) "" (by decide) r 3 5 (by decide)

/-- Files and rows of another authority are the same; a file may make its directory readable; and
the deadline of the metadata meets the entry that ends in `:meta`. -/
theorem other_uri_affected :
    aroundPut (putTo "file://a/x" (by decide)) (getFrom "file://b/x" (by decide)) (fun _ => none) =
        (.error "data not found: /store/x", .ok [7]) ∧
      aroundPut (putTo "file:///a/x" (by decide)) (getFrom "file:///a" (by decide))
          (fun _ => none) = (.error "data not found: /store/a", .ok []) ∧
      SQLiteBackend.get { sourceUri := "sqlite://b/x" }
          (SQLiteBackend.put { destUri := "sqlite://a/x" } [7] ⟨fun _ => none, fun _ => none⟩).2 =
        .ok [7] ∧
      KVBackend.getRedis "" { sourceUri := "kv://h/a:meta" } 1000000
          (KVBackend.putRedis "" { destUri := "kv://h/a:meta" } [5] 0 ∅) = .ok [5] ∧
      KVBackend.getRedis "" { sourceUri := "kv://h/a:meta" } 1000000
          (KVBackend.putRedis "" { destUri := "kv://h/a", ttlSeconds := 1 } [7] 0
            (KVBackend.putRedis "" { destUri := "kv://h/a:meta" } [5] 0 ∅)) =
        .error "key not found: h/a:meta" := by
  decide

end Labios
