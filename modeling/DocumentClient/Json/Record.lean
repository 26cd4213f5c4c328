import DocumentClient.Json.Decoder

/-!
# Decoding records

A record is decoded from an object by the names of its fields, or from a list by their order.
Fields that are not required may be absent, members without a field are passed over, and a field
may be given once only.
-/

set_option autoImplicit false

namespace DocumentClient.Json

open Reader

/-- One field of a record: reading it gives a change of the record. -/
structure Field (α : Type) where
  name : String
  required : Bool
  read : Decoder (α → α)

def Field.needed {α β : Type} (name : String) (decoder : Decoder β) (set : β → α → α) : Field α :=
  ⟨name, true, decoder.map set⟩

/-- A field that keeps its first value when it is absent. -/
def Field.defaulted {α β : Type} (name : String) (decoder : Decoder β) (set : β → α → α) :
    Field α :=
  ⟨name, false, decoder.map set⟩

/-- The fields of a record in order, and the record without any of them. -/
structure Record (α : Type) where
  title : String
  blank : α
  fields : List (Field α)

namespace Record

variable {α : Type}

def wanted (record : Record α) : String :=
  "struct " ++ record.title

def wantedLength (record : Record α) : String :=
  let count := record.fields.length
  s!"{record.wanted} with {count} element" ++ if count = 1 then "" else "s"

def field? (record : Record α) (name : String) : Option (Field α) :=
  record.fields.find? (·.name == name)

/-! ## From an object -/

/-- The fault of a field given twice. It shows behind the closing brace if one follows its name. -/
def duplicate {β : Type} (name : String) : Reader β := do
  skipBlanks
  if (← peek) = some (code '\x7d') then advance
  failHere (.duplicateField name)

/-- The change that a member makes, behind its name. `seen` are the names before it. -/
def takeChange (record : Record α) (levels : Nat) (seen : List String) (name : String) :
    Reader (α → α) :=
  match record.field? name with
  | none => do
    memberValue skipValue name
    return id
  | some field =>
    if name ∈ seen then duplicate name else memberValue (field.read levels) name

/-- The record of the members up to the closing brace, and their names, the last one first. -/
def fieldsFrom (record : Record α) (levels : Nat) (seen : List String) (value : α)
    (cursor : Cursor) : Except Fault ((List String × α) × Cursor) :=
  match _name : (takeName seen.isEmpty).run cursor with
  | .error fault => .error fault
  | .ok (none, behind) => .ok ((seen, value), behind)
  | .ok (some name, start) =>
    match _change : (record.takeChange levels seen name).run start with
    | .error fault => .error fault
    | .ok (change, behind) => record.fieldsFrom levels (name :: seen) (change value) behind
termination_by cursor.size
decreasing_by
  have := size_takeName_lt _name
  have := (record.takeChange levels seen name).size_le _change
  omega

theorem size_fieldsFrom_le {record : Record α} {levels : Nat} {seen names : List String}
    {value last : α} {cursor behind : Cursor}
    (found : record.fieldsFrom levels seen value cursor = .ok ((names, last), behind)) :
    behind.size ≤ cursor.size := by
  fun_induction fieldsFrom record levels seen value cursor with
  | case1 => cases found
  | case2 _ _ _ _ name =>
      cases found
      exact (takeName _).size_le name
  | case3 => cases found
  | case4 seen value cursor name start named change middle taken ih =>
      have := ih found
      have := size_takeName_lt named
      have := (record.takeChange levels seen name).size_le taken
      omega

def missing? (record : Record α) (seen : List String) : Option String :=
  (record.fields.find? fun field => field.required && !seen.contains field.name).map (·.name)

/-- The record behind an opening brace. -/
def fromObject (record : Record α) (levels : Nat) : Reader α := do
  let (seen, value) ←
    (⟨record.fieldsFrom levels [] record.blank, size_fieldsFrom_le⟩ : Reader (List String × α))
  advance
  match record.missing? seen with
  | some name => failHere (.missingField name)
  | none => return value

/-! ## From a list -/

/-- The fields from one index on. Once the list has ended the other fields have to be optional. -/
def takeOrdered (record : Record α) (levels : Nat) (index : Nat) (value : α) :
    List (Field α) → Reader α
  | [] => return value
  | field :: fields => do
    if ← if index = 0 then firstItem else nextItem then
      let change ← (field.read levels).under (.item index)
      record.takeOrdered levels (index + 1) (change value) fields
    else if field.required then
      advance
      failHere (.wrongLength index record.wantedLength)
    else record.takeOrdered levels (index + 1) value fields

def endList : Reader Unit := do
  skipBlanks
  match ← peek with
  | none => failNext .endInList
  | some byte =>
    if byte = code ']' then advance
    else if byte = code ',' then
      advance
      skipBlanks
      failNext (if (← peek) = some (code ']') then .trailingComma else .trailingCharacters)
    else failNext .trailingCharacters

def fromList (record : Record α) (levels : Nat) : Reader α := do
  let value ← record.takeOrdered levels 0 record.blank record.fields
  endList
  return value

def decoder (record : Record α) : Decoder α := fun levels => do
  skipBlanks
  match (← peek).bind Frame.ofByte? with
  | some .object => record.fromObject (← enter levels)
  | some .list => record.fromList (← enter levels)
  | none => mismatch record.wanted

end Record

end DocumentClient.Json
