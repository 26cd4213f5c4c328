import DocumentClient.PathSegment
import DocumentClient.Query.State

/-!
# Compiled queries

A query state on the wire: a path that tells where to look, and a query string of the parameters
that are not empty.
-/

set_option autoImplicit false

namespace DocumentClient.Query

/-- A relative path and its query string. -/
structure Compiled where
  path : String
  query : Option String
deriving Repr, DecidableEq

def Compiled.text (compiled : Compiled) : String :=
  compiled.path ++ ((compiled.query.map ("?" ++ ·)).getD "")

instance : ToString Compiled := ⟨Compiled.text⟩

def termEscapes : Percent.EscapeSet :=
  Percent.allExcept "-_.!~*'()"

/-- An equality: field and value around a colon, neither holding a colon or a blank itself. -/
def term (predicate : String × String) : String :=
  Percent.encode termEscapes predicate.1 ++ ":" ++ Percent.encode termEscapes predicate.2

namespace State

def predicate? (state : State) : Option String :=
  (state.predicates.map fun predicates => Text.join " AND " (predicates.entries.map term)).filter
    (· ≠ "")

/-- The parameters that are not empty, in the order in which they are sent. -/
def parameters (state : State) : List (String × String) :=
  let positive (name : String) (count : Option Nat) : List (String × String) :=
    ((count.filter (0 < ·)).map fun count => (name, toString count)).toList
  (state.predicate?.map ("query", ·)).toList ++
    (state.selected.getD []).map ("fetch", ·) ++
    ((state.sortKey.filter (· ≠ "")).map ("sort", ·)).toList ++
    positive "start" state.skip ++
    positive "pageSize" state.take

def queryString? (state : State) : Option String :=
  if state.parameters.isEmpty then none else some (Form.encode state.parameters)

/-- The path. A query of all documents needs at least one parameter. -/
def path (state : State) : Except Misuse String :=
  match state.target with
  | .index name => (PathSegment.encodePath name "index name").map ("indexes/" ++ ·)
  | .dynamic collection =>
    match collection.filter (· ≠ "") with
    | some name => (PathSegment.encode name "collection").map ("indexes/dynamic/" ++ ·)
    | none =>
      if state.parameters.isEmpty then .error .unscopedQuery else .ok "indexes/dynamic"

def compile (state : State) : Except Error Compiled :=
  (state.path.mapError .validation).map (⟨·, state.queryString?⟩)

end State

end DocumentClient.Query
