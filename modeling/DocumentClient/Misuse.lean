/-!
# Misuse

The ways in which a caller can ask for something that has no meaning. They are found before
anything is sent.
-/

set_option autoImplicit false

namespace DocumentClient

/-- A usage error, by cause. -/
inductive Misuse where
  | missing (what : String)
  | dotSegment (segment what : String)
  | indexAndCollection
  | andBeforeFilter
  | noSelectedField
  | unscopedQuery
  | custom (text : String)
deriving Repr, DecidableEq

def Misuse.message : Misuse → String
  | .missing what => s!"expected a {what}"
  | .dotSegment segment what => s!"'{segment}' is not a valid {what} segment"
  | .indexAndCollection => "cannot specify both an index and a collection to query"
  | .andBeforeFilter => "call filter() before calling and(): and() cannot open a predicate"
  | .noSelectedField => "expected at least one field to select"
  | .unscopedQuery => "a dynamic query needs a collection or at least one filter"
  | .custom text => text

end DocumentClient
