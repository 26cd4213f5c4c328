import DocumentClient.Json.Skip

/-!
# Decoding

A decoder reads one value of a wanted kind from the front of a text. Nesting is limited, and a
fault names the way from the root to the value that was being read. Bytes behind the value are
left alone.
-/

set_option autoImplicit false

namespace DocumentClient.Json

open Reader

/-- Reads a value, given the number of lists and objects that may still be entered. -/
abbrev Decoder (α : Type) := Nat → Reader α

def greatestDepth : Nat := 127

def Decoder.map {α β : Type} (change : α → β) (decoder : Decoder α) : Decoder β :=
  fun levels => change <$> decoder levels

/-! ## Mismatches -/

def startsNumber (byte : UInt8) : Bool :=
  byte == code '-' || isDigit byte

/-- Any value but a list or an object. -/
def takeScalar : Reader Value := do
  match ← peek with
  | none => failNext .endInValue
  | some byte =>
    if byte = code 'n' then
      advance
      takeLiteral "ull".toList
      return .null
    else if byte = code 't' then
      advance
      takeLiteral "rue".toList
      return .bool true
    else if byte = code 'f' then
      advance
      takeLiteral "alse".toList
      return .bool false
    else if startsNumber byte then return (← takeNumber).value
    else if byte = code '"' then
      advance
      return .text (← takeText)
    else failNext .value

/-- What a value is to a reader that wants another one. -/
def Value.found : Value → Found
  | .null => .null
  | .bool value => .bool value
  | .integer value => .integer value
  | .real bits => .real bits
  | .text value => .text value
  | .list _ => .list
  | .object _ => .object

/-- What stands at the front instead of a wanted value. A scalar is read whole first, so that its
own fault wins. -/
def takeFound : Reader Found := do
  match (← peek).bind Frame.ofByte? with
  | some .list => return .list
  | some .object => return .object
  | none => return (← takeScalar).found

def mismatch {α : Type} (wanted : String) : Reader α := do
  let found ← takeFound
  failHere (.wrongType found wanted)

/-! ## Scalars -/

def text : Decoder String := fun _ => do
  skipBlanks
  if (← peek) = some (code '"') then
    advance
    takeText
  else mismatch "a string"

def bool : Decoder Bool := fun _ => do
  skipBlanks
  let next ← peek
  if next = some (code 't') then
    advance
    takeLiteral "rue".toList
    return true
  else if next = some (code 'f') then
    advance
    takeLiteral "alse".toList
    return false
  else mismatch "a boolean"

def unsigned (bits : Nat) (wanted : String) : Decoder Nat := fun _ => do
  skipBlanks
  if !(← peek).any startsNumber then mismatch wanted
  else
    match ← takeNumber with
    | .real bits => failHere (.wrongType (.real bits) wanted)
    | .integer value =>
      if 0 ≤ value ∧ value.toNat < Nat.pow 2 bits then return value.toNat
      else failHere (.wrongValue (.integer value) wanted)

def unsigned32 : Decoder Nat := unsigned 32 "u32"

def unsigned64 : Decoder Nat := unsigned 64 "u64"

/-- A value, or `null` in its place. -/
def optional {α : Type} (decoder : Decoder α) : Decoder (Option α) := fun levels => do
  skipBlanks
  if (← peek) = some (code 'n') then
    advance
    takeLiteral "ull".toList
    return none
  else return some (← decoder levels)

/-! ## Lists -/

def enter (levels : Nat) : Reader Nat :=
  match levels with
  | 0 => failNext .nesting
  | levels + 1 => do
    advance
    return levels

def firstItem : Reader Bool := do
  skipBlanks
  match ← peek with
  | none => failNext .endInList
  | some byte => return byte != code ']'

/-- Whether another item follows an item. A comma has to stand in front of it. -/
def nextItem : Reader Bool := do
  skipBlanks
  match ← peek with
  | none => failNext .endInList
  | some byte =>
    if byte = code ']' then return false
    else if byte ≠ code ',' then failNext .listCommaOrEnd
    else
      advance
      skipBlanks
      match ← peek with
      | none => failNext .endInValue
      | some byte => if byte = code ']' then failNext .trailingComma else return true

theorem size_nextItem_lt {cursor behind : Cursor}
    (found : nextItem.run cursor = .ok (true, behind)) : behind.size < cursor.size := by
  unfold nextItem at found
  obtain ⟨_, start, blanks, found⟩ := run_bind_eq_ok.1 found
  have := skipBlanks.size_le blanks
  rw [run_bind, run_peek] at found
  simp only at found
  split at found
  · simp at found
  · rename_i byte head
    have := Cursor.size_advance_lt head
    split at found
    · simp at found
    · split at found
      · simp at found
      · rw [run_bind, run_advance] at found
        have := Reader.size_le (do
          skipBlanks
          match ← peek with
          | none => failNext .endInValue
          | some byte => if byte = code ']' then failNext .trailingComma else return true) found
        omega

/-- The items behind an item, the first of them at some index. -/
def itemsFrom {α : Type} (item : Reader α) (index : Nat) (cursor : Cursor) :
    Except Fault (List α × Cursor) :=
  match _next : nextItem.run cursor with
  | .error fault => .error fault
  | .ok (false, behind) => .ok ([], behind)
  | .ok (true, start) =>
    match _item : (item.under (.item index)).run start with
    | .error fault => .error fault
    | .ok (value, behind) =>
      (itemsFrom item (index + 1) behind).map fun (values, behind) => (value :: values, behind)
termination_by cursor.size
decreasing_by
  have := size_nextItem_lt _next
  have := (item.under (.item index)).size_le _item
  omega

theorem size_itemsFrom_le {α : Type} {item : Reader α} {index : Nat} {cursor behind : Cursor}
    {values : List α} (found : itemsFrom item index cursor = .ok (values, behind)) :
    behind.size ≤ cursor.size := by
  fun_induction itemsFrom item index cursor generalizing values behind with
  | case1 => cases found
  | case2 _ cursor last next =>
      cases found
      exact nextItem.size_le next
  | case3 => cases found
  | case4 index cursor start next value middle taken ih =>
      obtain ⟨⟨more, last⟩, rest, same⟩ := map_eq_ok found
      cases same
      have := ih rest
      have := size_nextItem_lt next
      have := (item.under (.item index)).size_le taken
      omega

/-- The items up to the closing bracket, which is not taken. -/
def takeItems {α : Type} (item : Reader α) : Reader (List α) := do
  if ← firstItem then
    let first ← item.under (.item 0)
    let more ← (⟨itemsFrom item 1, size_itemsFrom_le⟩ : Reader (List α))
    return first :: more
  else return []

def list {α : Type} (decoder : Decoder α) : Decoder (List α) := fun levels => do
  skipBlanks
  if (← peek) = some (code '[') then
    let levels ← enter levels
    let values ← takeItems (decoder levels)
    advance
    return values
  else mismatch "a sequence"

/-! ## Objects -/

def openName (atEnd atClosing : Cause) : Reader Unit := do
  match ← peek with
  | none => failNext atEnd
  | some byte =>
    if byte = code '"' then advance
    else if byte = code '\x7d' then failNext atClosing
    else failNext .nameNotText

/-- The name of the next member, or none if the object ends here. A comma has to stand in front of
every name but the first. A fault here belongs to an unknown member. -/
def takeName (first : Bool) : Reader (Option String) :=
  under .unknown do
    skipBlanks
    match ← peek with
    | none => failNext .endInObject
    | some byte =>
      if byte = code '\x7d' then return none
      else if first then
        openName .endInObject .nameNotText
        return some (← takeText)
      else if byte = code ',' then
        advance
        skipBlanks
        openName .endInValue .trailingComma
        return some (← takeText)
      else failNext .objectCommaOrEnd

theorem size_openName_lt {atEnd atClosing : Cause} {cursor behind : Cursor}
    (found : (openName atEnd atClosing).run cursor = .ok ((), behind)) :
    behind.size < cursor.size := by
  unfold openName at found
  rw [run_bind, run_peek] at found
  simp only at found
  split at found
  · simp at found
  · rename_i byte head
    split at found
    · cases found
      exact Cursor.size_advance_lt head
    · split at found <;> simp at found

theorem size_takeName_lt {first : Bool} {name : String} {cursor behind : Cursor}
    (found : (takeName first).run cursor = .ok (some name, behind)) :
    behind.size < cursor.size := by
  unfold takeName at found
  replace found := run_under_eq_ok.1 found
  obtain ⟨_, start, blanks, found⟩ := run_bind_eq_ok.1 found
  have := skipBlanks.size_le blanks
  rw [run_bind, run_peek] at found
  simp only at found
  split at found
  · simp at found
  · rename_i byte head
    have := Cursor.size_advance_lt head
    split at found
    · simp at found
    · split at found
      · obtain ⟨_, middle, quote, found⟩ := run_bind_eq_ok.1 found
        obtain ⟨_, last, text, found⟩ := run_bind_eq_ok.1 found
        cases found
        have := size_openName_lt quote
        have := takeText.size_le text
        omega
      · split at found
        · rw [run_bind, run_advance] at found
          obtain ⟨_, next, blanks, found⟩ := run_bind_eq_ok.1 found
          obtain ⟨_, middle, quote, found⟩ := run_bind_eq_ok.1 found
          obtain ⟨_, last, text, found⟩ := run_bind_eq_ok.1 found
          cases found
          have := skipBlanks.size_le blanks
          have := size_openName_lt quote
          have := takeText.size_le text
          omega
        · simp at found

def memberValue {α : Type} (value : Reader α) (name : String) : Reader α := do
  takeColon
  value.under (.member name)

def membersFrom {α : Type} (value : Reader α) (first : Bool) (cursor : Cursor) :
    Except Fault (List (String × α) × Cursor) :=
  match _name : (takeName first).run cursor with
  | .error fault => .error fault
  | .ok (none, behind) => .ok ([], behind)
  | .ok (some name, start) =>
    match _value : (memberValue value name).run start with
    | .error fault => .error fault
    | .ok (member, behind) =>
      (membersFrom value false behind).map fun (members, behind) =>
        ((name, member) :: members, behind)
termination_by cursor.size
decreasing_by
  have := size_takeName_lt _name
  have := (memberValue value name).size_le _value
  omega

theorem size_membersFrom_le {α : Type} {value : Reader α} {first : Bool} {cursor behind : Cursor}
    {members : List (String × α)}
    (found : membersFrom value first cursor = .ok (members, behind)) :
    behind.size ≤ cursor.size := by
  fun_induction membersFrom value first cursor generalizing members behind with
  | case1 => cases found
  | case2 first cursor last name =>
      cases found
      exact (takeName first).size_le name
  | case3 => cases found
  | case4 first cursor name start named member middle taken ih =>
      obtain ⟨⟨more, last⟩, rest, same⟩ := map_eq_ok found
      cases same
      have := ih rest
      have := size_takeName_lt named
      have := (memberValue value name).size_le taken
      omega

/-- The members up to the closing brace, which is not taken. -/
def takeMembers {α : Type} (value : Reader α) : Reader (List (String × α)) where
  run := membersFrom value true
  size_le := size_membersFrom_le

def members {α : Type} (decoder : Decoder α) : Decoder (List (String × α)) :=
  fun levels => do
    skipBlanks
    if (← peek) = some (code '\x7b') then
      let levels ← enter levels
      let members ← takeMembers (decoder levels)
      advance
      return members
    else mismatch "a map"

/-! ## Any value -/

/-- Any value. A list or an object needs one more level. -/
def value : Decoder Value
  | 0 => do
    skipBlanks
    match (← peek).bind Frame.ofByte? with
    | some _ => failNext .nesting
    | none => takeScalar
  | levels + 1 => do
    skipBlanks
    match (← peek).bind Frame.ofByte? with
    | some .list =>
      advance
      let items ← takeItems (value levels)
      advance
      return .list items
    | some .object =>
      advance
      let members ← takeMembers (value levels)
      advance
      return .ofMembers members
    | none => takeScalar

/-! ## Whole bodies -/

/-- The value at the front of some bytes. -/
def decode {α : Type} (decoder : Decoder α) (bytes : Bytes) : Except Fault α :=
  ((decoder greatestDepth).run (Cursor.start bytes)).map (·.1)

def takeEnd : Reader Unit := do
  skipBlanks
  if (← peek).isSome then failNext .trailingCharacters

/-- A value with nothing but blanks behind it. -/
def whole {α : Type} (decoder : Decoder α) : Decoder α := fun levels => do
  let value ← decoder levels
  takeEnd
  return value

end DocumentClient.Json
