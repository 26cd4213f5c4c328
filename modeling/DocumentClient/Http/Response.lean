import DocumentClient.Body
import DocumentClient.TextMap

/-!
# Responses

What a server answers. A status is no error by itself; an operation says which one it expects.
-/

set_option autoImplicit false

namespace DocumentClient.Http

structure Response where
  status : Nat
  headers : TextMap := ∅
  body : Bytes := []
deriving Repr, DecidableEq

/-- What an exchange comes to. -/
abbrev Reply := Except Error Response

namespace Response

def isSuccess (response : Response) : Bool :=
  200 ≤ response.status && response.status < 300

/-- The response itself if it has the expected status. The error keeps the body. -/
def expectStatus (response : Response) (expected : Nat) (action : String) : Reply :=
  if response.status = expected then .ok response
  else .error (.http response.status (.unexpected action) (some response.body))

def decode {α : Type} (decoder : Json.Decoder α) (response : Response) : Except Error α :=
  decodeBody decoder response.body

end Response

end DocumentClient.Http
