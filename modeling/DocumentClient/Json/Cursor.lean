import DocumentClient.Json.Fault

/-!
# Cursors

A place in some bytes and the bytes behind it. Reading takes bytes off the front, and a fault is
placed either behind the last byte taken or behind the next one.
-/

set_option autoImplicit false

namespace DocumentClient.Json

structure Cursor where
  rest : Bytes
  position : Position
deriving Repr, DecidableEq

namespace Cursor

def start (bytes : Bytes) : Cursor :=
  ⟨bytes, ⟨1, 0⟩⟩

def size (cursor : Cursor) : Nat :=
  cursor.rest.length

/-- The place behind a byte: a line feed starts a new line. -/
def after (position : Position) (byte : UInt8) : Position :=
  if byte = 10 then ⟨position.line + 1, 0⟩ else ⟨position.line, position.column + 1⟩

/-- The cursor behind the next byte, or the same one at the end. -/
def advance (cursor : Cursor) : Cursor :=
  match cursor.rest with
  | [] => cursor
  | byte :: rest => ⟨rest, after cursor.position byte⟩

def head? (cursor : Cursor) : Option UInt8 :=
  cursor.rest.head?

def finish (cursor : Cursor) : Cursor :=
  ⟨[], cursor.rest.foldl after cursor.position⟩

/-- A fault behind the last byte taken. -/
def faultHere (cursor : Cursor) (cause : Cause) : Fault :=
  ⟨[], cause, cursor.position⟩

/-- A fault behind the next byte. -/
def faultNext (cursor : Cursor) (cause : Cause) : Fault :=
  ⟨[], cause, cursor.advance.position⟩

def skipFrom (holds : UInt8 → Bool) : Bytes → Position → Cursor
  | [], position => ⟨[], position⟩
  | byte :: rest, position =>
    if holds byte then skipFrom holds rest (after position byte) else ⟨byte :: rest, position⟩

def skipWhile (holds : UInt8 → Bool) (cursor : Cursor) : Cursor :=
  skipFrom holds cursor.rest cursor.position

/-! ## Sizes -/

theorem size_advance (cursor : Cursor) : cursor.advance.size = cursor.size - 1 := by
  unfold advance size
  split <;> simp_all

theorem size_advance_lt {cursor : Cursor} {byte : UInt8} (found : cursor.head? = some byte) :
    cursor.advance.size < cursor.size := by
  have : 0 < cursor.size := by
    unfold head? at found
    unfold size
    cases rest : cursor.rest <;> simp_all
  rw [size_advance]
  omega

theorem size_skipFrom_le (holds : UInt8 → Bool) (bytes : Bytes) (position : Position) :
    (skipFrom holds bytes position).size ≤ bytes.length := by
  induction bytes generalizing position with
  | nil => simp [skipFrom, size]
  | cons byte rest ih =>
      simp only [skipFrom]
      split
      · exact Nat.le_trans (ih _) (by simp)
      · simp [size]

theorem size_skipWhile_le (holds : UInt8 → Bool) (cursor : Cursor) :
    (cursor.skipWhile holds).size ≤ cursor.size :=
  size_skipFrom_le holds cursor.rest cursor.position

end Cursor

end DocumentClient.Json
