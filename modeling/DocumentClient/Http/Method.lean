/-!
# Methods

The verbs that the server answers to.
-/

set_option autoImplicit false

namespace DocumentClient.Http

inductive Method where
  /-- Reads a document, an attachment, a listing or a query result. -/
  | get
  /-- Creates or replaces a document or an attachment. -/
  | put
  /-- Removes a document or an attachment. -/
  | delete
  /-- Gives a command. -/
  | post
deriving Repr, DecidableEq

def Method.text : Method → String
  | .get => "GET"
  | .put => "PUT"
  | .delete => "DELETE"
  | .post => "POST"

instance : ToString Method := ⟨Method.text⟩

end DocumentClient.Http
