import Labios.Client.IntText
import Labios.Elastic.Dechunk
import Labios.Foundation.Json
import Labios.Foundation.Machine
import Labios.Foundation.Occurrence
import Labios.Foundation.Separators
import Labios.Theorems.OrphanContainers

/-!
# The HTTP exchange with Docker

`DockerClient::http_request` of `labios/elastic/docker_client.cpp`, from the connected socket on: a
request is written in as many pieces as the socket takes, and the answer is read until the
connection ends. What the system calls return is given with every step.

A byte of a text is a character where it is written or searched, as elsewhere.
-/

namespace Labios.Elastic

open Foundation

def asBytes (text : List Char) : List UInt8 := text.map fun c => UInt8.ofNat c.toNat

def asChars (bytes : List UInt8) : List Char := bytes.map fun b => Char.ofNat b.toNat

/-! ## The request -/

def requestText (method path body : List Char) : List Char :=
  method ++ ' ' :: (path ++ (" HTTP/1.1\r\nHost: localhost\r\n".toList ++
    ((if body ≠ [] then
        "Content-Type: application/json\r\nContent-Length: ".toList ++
          ((toString body.length).toList ++ "\r\n".toList)
      else []) ++ ("Connection: close\r\n\r\n".toList ++ body))))

structure ContainerSpec where
  image : List Char
  name : List Char
  env : List (List Char)
  network : List Char
  deriving DecidableEq

def createBody (spec : ContainerSpec) : List Char :=
  "\x7b\"Image\":\"".toList ++ (spec.image ++ ("\",\"Env\":[".toList ++
    ([','].intercalate (spec.env.map fun e => '"' :: (e ++ ['"'])) ++
      ("],\"Labels\":\x7b\"labios.elastic\":\"true\",\"labios.worker\":\"".toList ++
        (spec.name ++ ("\"\x7d,\"HostConfig\":\x7b\"NetworkMode\":\"".toList ++
          (spec.network ++ "\"\x7d\x7d".toList)))))))

def createPath (spec : ContainerSpec) : List Char :=
  "/v1.41/containers/create?name=".toList ++ spec.name

def startPath (containerId : List Char) : List Char :=
  "/v1.41/containers/".toList ++ (containerId ++ "/start".toList)

/-! ## The answer -/

def lineBreaks : List UInt8 := [13, 10, 13, 10]

/-- `tolower` in the C locale. -/
def toLowerByte (b : UInt8) : UInt8 := if 65 ≤ b.toNat ∧ b.toNat ≤ 90 then b + 32 else b

def chunkedHeader : List UInt8 := asBytes "transfer-encoding: chunked".toList

/-- `result.status_code`; none where `stoi` throws. -/
def statusOf (response : List UInt8) : Option Int :=
  match firstAt [32] response with
  | none => some 0
  | some statusPos =>
      if statusPos + 3 < response.length then
        stoi (asChars ((response.drop (statusPos + 1)).take 3))
      else some 0

/-- `result.body`; none where `dechunk` throws. -/
def bodyOf (response : List UInt8) : Option (List UInt8) :=
  match firstAt lineBreaks response with
  | none => some []
  | some bodyPos =>
      if (firstAt chunkedHeader ((response.take bodyPos).map toLowerByte)).isSome then
        match dechunk (response.drop (bodyPos + 4)) with
        | .returned result => some result
        | .threw _ => none
        -- neither is reached
        | .outside => none
        | .unfinished => none
      else some (response.drop (bodyPos + 4))

/-- What is returned when the connection has ended. -/
def parseResponse (response : List UInt8) : HttpResult :=
  match statusOf response with
  | none => .error "stoi"
  | some statusCode =>
      match bodyOf response with
      | none => .error "stoul"
      | some body => .ok { statusCode, body := asChars body }

/-! ## The system calls -/

inductive SocketCall
  /-- `write` took the first bytes. -/
  | wrote (n : Nat)
  | writeInterrupted
  /-- `write` failed, or took nothing. -/
  | writeFailed
  | read (data : List UInt8)
  | readInterrupted
  /-- The connection ended, or `read` failed. -/
  | readEnded
  deriving DecidableEq

inductive ExchangePhase
  | sending | reading | finished | failed
  deriving DecidableEq, Repr

structure Exchange where
  /-- What of the request is not written. -/
  unsent : List UInt8
  /-- What the server got. -/
  sent : List UInt8 := []
  response : List UInt8 := []
  phase : ExchangePhase := .sending
  deriving DecidableEq

namespace Exchange

def start (method path body : List Char) : Exchange :=
  { unsent := asBytes (requestText method path body) }

def step (s : Exchange) : SocketCall → Option Exchange
  | .wrote n =>
      if s.phase = .sending ∧ 0 < n ∧ n ≤ s.unsent.length then
        some { s with
          unsent := s.unsent.drop n
          sent := s.sent ++ s.unsent.take n
          phase := if n = s.unsent.length then .reading else .sending }
      else none
  | .writeInterrupted => if s.phase = .sending then some s else none
  | .writeFailed => if s.phase = .sending then some { s with phase := .failed } else none
  | .read data =>
      if s.phase = .reading ∧ 0 < data.length ∧ data.length ≤ 4096 then
        some { s with response := s.response ++ data }
      else none
  | .readInterrupted => if s.phase = .reading then some s else none
  | .readEnded => if s.phase = .reading then some { s with phase := .finished } else none

/-- What `http_request` returns or throws, once it does. -/
def result (s : Exchange) (strerror : String) : Option HttpResult :=
  match s.phase with
  | .sending => none
  | .reading => none
  | .failed => some (.error ("write() failed: " ++ strerror))
  | .finished => some (parseResponse s.response)

/-- The first request of `create_and_start`. -/
def create (spec : ContainerSpec) : Exchange :=
  start "POST".toList (createPath spec) (createBody spec)

/-- The second request, where it comes to it. -/
def startCreated (created : HttpResult) : Option Exchange :=
  match created with
  | .error _ => none
  | .ok resp =>
      if resp.statusCode ≠ 201 then none
      else
        (containerIdOf resp.body).map fun id => start "POST".toList (startPath id.toList) []

end Exchange

/-- What the calls have read. -/
def readBytes (calls : List SocketCall) : List UInt8 :=
  calls.flatMap fun
    | .read data => data
    | _ => []

/-! ## A server -/

/-- A request as a server reads it: the words of its first line, and behind the empty line as many
bytes as the header says. -/
structure ServedRequest where
  method : List Char
  path : List Char
  body : List Char
  deriving DecidableEq

def contentLength (header : List Char) : Nat :=
  match firstAt "\r\nContent-Length: ".toList header with
  | none => 0
  | some pos => Nat.ofDigitChars 10 ((header.drop (pos + 18)).takeWhile Char.isDigit) 0

/-- None where the request is not complete, or more than complete. -/
def serveRequest (text : List Char) : Option ServedRequest := do
  let bodyPos ← firstAt "\r\n\r\n".toList text
  let header := text.take bodyPos
  let body := text.drop (bodyPos + 4)
  let (method, line) ← getline ' ' header
  let (path, _) ← getline ' ' line
  if body.length = contentLength header then some { method, path, body } else none

end Labios.Elastic
