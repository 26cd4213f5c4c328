/-!
# Positions

Where in a text a fault was found, and how the reason of a fault tells it. A reason that already
ends in a position is taken to have been found there.
-/

set_option autoImplicit false

namespace DocumentClient.Json

/-- A place in a text. Lines count from one; the column is the number of bytes read on the line. -/
structure Position where
  line : Nat
  column : Nat
deriving Repr, DecidableEq

namespace Position

/-- The place some bytes back on the same line. -/
def left (position : Position) (bytes : Nat) : Position :=
  { position with column := position.column - bytes }

/-! ## Positions in reasons -/

/-- A reason with its position. No line is line zero, and then there is no position to tell. -/
def behind (position : Position) (reason : String) : String :=
  if position.line = 0 then reason
  else s!"{reason} at line {position.line} column {position.column}"

/-- The number at the end of some characters, if it fits in 64 bits, and what stands in front of it.
The characters come from the last to the first. -/
def lastNumber? (reversed : List Char) : Option (Nat × List Char) :=
  let digits := (reversed.takeWhile Char.isDigit).reverse
  let value := digits.foldl (fun value digit => value * 10 + (digit.toNat - 48)) 0
  if digits.isEmpty || Nat.pow 2 64 ≤ value then none
  else some (value, reversed.dropWhile Char.isDigit)

def ofReason? (reason : String) : Option (Position × String) := do
  let (column, rest) ← lastNumber? reason.toList.reverse
  let rest ← " column ".toList.reverse.isPrefixOf? rest
  let (line, rest) ← lastNumber? rest
  let rest ← " at line ".toList.reverse.isPrefixOf? rest
  some (⟨line, column⟩, String.ofList rest.reverse)

end Position

end DocumentClient.Json
