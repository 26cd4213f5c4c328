import DocumentClient.Body
import DocumentClient.Http.Method
import DocumentClient.TextMap

/-!
# Requests

What is asked of a server. A request is made step by step: setting a header again replaces its
value, and so does setting the body.
-/

set_option autoImplicit false

namespace DocumentClient.Http

inductive ContentType where
  | json
  | octets
deriving Repr, DecidableEq

def ContentType.text : ContentType → String
  | .json => "application/json"
  | .octets => "application/octet-stream"

instance : ToString ContentType := ⟨ContentType.text⟩

structure Request where
  method : Method
  url : Url
  headers : TextMap := ∅
  body : Option Bytes := none
deriving Repr, DecidableEq

namespace Request

/-- Sets a header. Names are taken as they are spelled. -/
def header (request : Request) (name value : String) : Request :=
  { request with headers := request.headers.insert name value }

def addHeaders (request : Request) (pairs : List (String × String)) : Request :=
  { request with headers := request.headers.insertAll pairs }

def withBody (request : Request) (body : Bytes) : Request :=
  { request with body := some body }

def json (request : Request) (datum : Datum) : Except Error Request :=
  (encodeBody datum).map fun body =>
    (request.header "Content-Type" ContentType.json.text).withBody body

/-- The same request with its headers gone through in some order. -/
def arranged (request : Request) (arrange : TextMap.Arrangement) : Request :=
  { request with headers := arrange.apply request.headers }

end Request

end DocumentClient.Http
