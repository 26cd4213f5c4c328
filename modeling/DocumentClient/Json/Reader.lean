import DocumentClient.Json.Cursor

/-!
# Readers

A reader takes something from the front of a text, or finds a fault in it. It never gives bytes
back, and so readers can be repeated as long as each repetition takes a byte.
-/

set_option autoImplicit false

namespace DocumentClient.Json

theorem map_eq_ok {α β : Type} {change : α → β} {result : Except Fault α} {value : β}
    (found : result.map change = .ok value) : ∃ first, result = .ok first ∧ change first = value := by
  cases result with
  | error fault => simp [Except.map] at found
  | ok first => exact ⟨first, rfl, by simpa [Except.map] using found⟩

structure Reader (α : Type) where
  run : Cursor → Except Fault (α × Cursor)
  size_le : ∀ {cursor : Cursor} {value : α} {behind : Cursor},
    run cursor = .ok (value, behind) → behind.size ≤ cursor.size

namespace Reader

variable {α β : Type}

protected def pure (value : α) : Reader α where
  run cursor := .ok (value, cursor)
  size_le found := by
    cases found
    exact Nat.le_refl _

protected def bind (reader : Reader α) (continuation : α → Reader β) : Reader β where
  run cursor := match reader.run cursor with
    | .error fault => .error fault
    | .ok (value, behind) => (continuation value).run behind
  size_le {cursor value behind} found := by
    split at found
    · cases found
    · rename_i first middle taken
      exact Nat.le_trans ((continuation first).size_le found) (reader.size_le taken)

instance : Monad Reader where
  pure := Reader.pure
  bind := Reader.bind

@[simp] theorem run_pure (value : α) (cursor : Cursor) :
    (pure value : Reader α).run cursor = .ok (value, cursor) := rfl

@[simp] theorem run_bind (reader : Reader α) (continuation : α → Reader β) (cursor : Cursor) :
    (reader >>= continuation).run cursor =
      match reader.run cursor with
      | .error fault => .error fault
      | .ok (value, behind) => (continuation value).run behind := rfl

theorem run_bind_eq_ok {reader : Reader α} {continuation : α → Reader β}
    {cursor behind : Cursor} {value : β} :
    (reader >>= continuation).run cursor = .ok (value, behind) ↔
      ∃ first middle, reader.run cursor = .ok (first, middle) ∧
        (continuation first).run middle = .ok (value, behind) := by
  rw [run_bind]
  cases reader.run cursor with
  | error fault => simp
  | ok result =>
      obtain ⟨first, middle⟩ := result
      constructor
      · intro found
        exact ⟨first, middle, rfl, found⟩
      · rintro ⟨_, _, same, found⟩
        cases same
        exact found

/-- The result of a reader seen as a step further inside: its faults are under that step. -/
def under (step : Step) (reader : Reader α) : Reader α where
  run cursor := (reader.run cursor).mapError (·.under step)
  size_le {cursor value behind} found := by
    cases taken : reader.run cursor with
    | error fault =>
        rw [taken] at found
        cases found
    | ok result =>
        rw [taken] at found
        cases found
        exact reader.size_le taken

theorem run_under_eq_ok {step : Step} {reader : Reader α} {cursor behind : Cursor} {value : α} :
    (reader.under step).run cursor = .ok (value, behind) ↔
      reader.run cursor = .ok (value, behind) := by
  show (reader.run cursor).mapError _ = _ ↔ _
  cases reader.run cursor with
  | error fault =>
      constructor
      · intro found
        cases found
      · intro found
        cases found
  | ok result =>
      constructor
      · intro found
        cases found
        rfl
      · intro found
        cases found
        rfl

/-- Takes bytes without looking at them. -/
def moving (move : Cursor → Cursor) (size_le : ∀ cursor, (move cursor).size ≤ cursor.size) :
    Reader Unit where
  run cursor := .ok ((), move cursor)
  size_le {cursor _ _} found := by
    cases found
    exact size_le cursor

/-- Finds a fault behind the last byte taken. -/
def failHere (cause : Cause) : Reader α where
  run cursor := .error (cursor.faultHere cause)
  size_le found := by cases found

def failNext (cause : Cause) : Reader α where
  run cursor := .error (cursor.faultNext cause)
  size_le found := by cases found

/-- Finds a fault some bytes before the last byte taken. -/
def failBack (bytes : Nat) (cause : Cause) : Reader α where
  run cursor := .error ⟨[], cause, cursor.position.left bytes⟩
  size_le found := by cases found

@[simp] theorem run_failHere (cause : Cause) (cursor : Cursor) :
    (failHere cause : Reader α).run cursor = .error (cursor.faultHere cause) := rfl

@[simp] theorem run_failNext (cause : Cause) (cursor : Cursor) :
    (failNext cause : Reader α).run cursor = .error (cursor.faultNext cause) := rfl

def peek : Reader (Option UInt8) where
  run cursor := .ok (cursor.head?, cursor)
  size_le found := by
    cases found
    exact Nat.le_refl _

def ahead (count : Nat) : Reader Bytes where
  run cursor := .ok (cursor.rest.take count, cursor)
  size_le found := by
    cases found
    exact Nat.le_refl _

def advance : Reader Unit :=
  moving Cursor.advance fun cursor => by rw [Cursor.size_advance]; omega

@[simp] theorem run_peek (cursor : Cursor) : peek.run cursor = .ok (cursor.head?, cursor) := rfl

@[simp] theorem run_advance (cursor : Cursor) : advance.run cursor = .ok ((), cursor.advance) := rfl

def skipWhile (holds : UInt8 → Bool) : Reader Unit :=
  moving (Cursor.skipWhile holds) (Cursor.size_skipWhile_le holds)

def finish : Reader Unit :=
  moving Cursor.finish fun _ => by simp [Cursor.finish, Cursor.size]

def isBlank (byte : UInt8) : Bool :=
  byte == 32 || byte == 10 || byte == 9 || byte == 13

def skipBlanks : Reader Unit :=
  skipWhile isBlank

/-- Takes one byte, which has to be there. -/
def takeByte (atEnd : Cause) : Reader UInt8 := do
  match ← peek with
  | none => failHere atEnd
  | some byte =>
    advance
    return byte

end Reader

def code (char : Char) : UInt8 :=
  UInt8.ofNat char.toNat

end DocumentClient.Json
