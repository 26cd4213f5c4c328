import DocumentClient.Error
import DocumentClient.Query.Field
import DocumentClient.TextMap

/-!
# Query states

What has been asked of a query so far: where to look, which equalities have to hold, which fields
are wanted, in which order, and which part of the results. A step that cannot be taken leaves no
new state.
-/

set_option autoImplicit false

namespace DocumentClient.Query

/-- Where a query looks: in an index, or in the documents themselves and perhaps in one
collection of them only. -/
inductive Target where
  | index (name : String)
  | dynamic (collection : Option String)
deriving Repr, DecidableEq

structure State where
  target : Target := .dynamic none
  predicates : Option TextMap := none
  selected : Option (List String) := none
  sortKey : Option String := none
  skip : Option Nat := none
  take : Option Nat := none
deriving Repr, DecidableEq

namespace State

/-- A query of the documents themselves. -/
def dynamic : State := {}

/-- A query of an index. Without a name there is no index. -/
def ofIndex (name : String) : State :=
  if name = "" then dynamic else { target := .index name }

def start (index : Option String) : State :=
  match index with
  | some name => ofIndex name
  | none => dynamic

def indexName? (state : State) : Option String :=
  match state.target with
  | .index name => some name
  | .dynamic _ => none

def collection? (state : State) : Option String :=
  match state.target with
  | .index _ => none
  | .dynamic collection => collection

/-! ## Steps -/

/-- Narrows the query to a collection; an index has none. -/
def setCollection (state : State) (name : String) : Except Error State :=
  match state.target with
  | .index _ => .error (.validation .indexAndCollection)
  | .dynamic _ => .ok { state with target := .dynamic (some name) }

/-- Asks for an equality. A later one for the same field takes its place. -/
def filter (state : State) (field value : String) : State :=
  { state with predicates := some ((state.predicates.getD ∅).insert field value) }

/-- Asks for one more equality, where there is one already. -/
def and (state : State) (field value : String) : Except Error State :=
  match state.predicates with
  | none => .error (.validation .andBeforeFilter)
  | some predicates => .ok { state with predicates := some (predicates.insert field value) }

/-- Asks for some fields only, in place of any asked for before. -/
def select (state : State) (fields : List Field) : Except Error State :=
  if fields.isEmpty then .error (.validation .noSelectedField)
  else .ok { state with selected := some (fields.map Field.name) }

def orderBy (state : State) (field : String) : State :=
  { state with sortKey := some field }

def orderByDescending (state : State) (field : String) : State :=
  { state with sortKey := some ("-" ++ field) }

def setSkip (state : State) (count : Nat) : State :=
  { state with skip := some count }

def setTake (state : State) (count : Nat) : State :=
  { state with take := some count }

end State

/-- One step in the making of a query. -/
inductive Step where
  | collection (name : String)
  | filter (field value : String)
  | and (field value : String)
  | select (fields : List Field)
  | orderBy (field : String)
  | orderByDescending (field : String)
  | skip (count : Nat)
  | take (count : Nat)
deriving Repr, DecidableEq

def State.step (state : State) : Step → Except Error State
  | .collection name => state.setCollection name
  | .filter field value => .ok (state.filter field value)
  | .and field value => state.and field value
  | .select fields => state.select fields
  | .orderBy field => .ok (state.orderBy field)
  | .orderByDescending field => .ok (state.orderByDescending field)
  | .skip count => .ok (state.setSkip count)
  | .take count => .ok (state.setTake count)

/-- The state behind some steps. A step that fails changes nothing, and the next one is taken. -/
def State.steps (state : State) (steps : List Step) : State :=
  steps.foldl (fun state step => (state.step step).toOption.getD state) state

end DocumentClient.Query
