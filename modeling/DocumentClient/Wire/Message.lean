import DocumentClient.Http.Request
import DocumentClient.Wire.Header
import DocumentClient.Wire.Target

/-!
# Messages to a server

A request in bytes: a line, headers and a body. Framing headers that the caller has set are
respected; otherwise a body that is not empty is announced by its length. Headers are written here
in the order in which they were given. Only the order of the values of one name is certain to be
the same wherever headers are kept by name.
-/

set_option autoImplicit false

namespace DocumentClient.Wire

structure Message where
  method : Http.Method
  target : Target
  headers : Headers
  body : Bytes
deriving Repr, DecidableEq

inductive BodyForm where
  /-- No more bytes than are announced. -/
  | length (announced : Nat)
  /-- In chunks, behind each of which its end is marked. -/
  | chunks
deriving Repr, DecidableEq

namespace Message

/-- A request as a message. The URL is checked before the headers. -/
def ofRequest (request : Http.Request) : Except RequestFault Message := do
  let target ← Target.read request.url.text
  let headers ← sendableAll request.headers
  .ok ⟨request.method, target, headers, request.body.getD []⟩

/-- The headers with the name of the host, unless they have one. -/
def withHost (message : Message) : Headers :=
  if (valuesOf "host" message.headers).isEmpty then
    message.headers ++ [("host", utf8 message.target.endpoint)]
  else message.headers

/-- Replaces the last value of the transfer coding by one that ends in chunks. -/
def addChunks (headers : Headers) : Headers :=
  (headers.reverse.foldl (fun (done, found) header =>
    if header.1 == "transfer-encoding" && !found then
      ((header.1, header.2 ++ utf8 ", chunked") :: done, true)
    else (header :: done, found)) (([] : Headers), false)).1

/-- Headers and form of the body. An empty body is not written at all. -/
def framing (message : Message) : Headers × BodyForm :=
  let headers := message.withHost
  let without (name : String) (headers : Headers) : Headers := headers.filter (·.1 != name)
  if message.body.isEmpty then (without "transfer-encoding" headers, .length 0)
  else if !(valuesOf "transfer-encoding" headers).isEmpty then
    let announced := declaredLength? headers
    let headers := if endsInChunks headers then headers else addChunks headers
    (if announced.isSome then without "content-length" headers else headers, .chunks)
  else match declaredLength? headers with
    | some announced => (headers, .length announced)
    | none =>
      (without "content-length" headers ++
        [("content-length", utf8 (toString message.body.length))],
        .length message.body.length)

def lineEnd : Bytes := [13, 10]

def line (message : Message) : Bytes :=
  utf8 s!"{message.method.text} {message.target.line} HTTP/1.1"

def headerBytes (headers : Headers) : Bytes :=
  headers.flatMap fun header => utf8 header.1 ++ utf8 ": " ++ header.2 ++ lineEnd

/-- A body in one chunk, and the empty chunk behind it. -/
def chunkBytes (body : Bytes) : Bytes :=
  utf8 (String.ofList (Nat.toDigits 16 body.length)).toUpper ++ lineEnd ++ body ++ lineEnd ++
    utf8 "0" ++ lineEnd ++ lineEnd

def bytes (message : Message) : Bytes :=
  let (headers, form) := message.framing
  message.line ++ lineEnd ++ headerBytes headers ++ lineEnd ++
    match form with
    | .length announced => message.body.take announced
    | .chunks => chunkBytes message.body

end Message

end DocumentClient.Wire
