import DocumentClient.Decimal.Layout

/-!
# Fields to select

A field is named by a text or by a number. A number is written in positional notation whatever its
size, without a point if it is whole.
-/

set_option autoImplicit false

namespace DocumentClient.Query

inductive Field where
  | text (value : String)
  | integer (value : Int)
  | real (value : Decimal.Binary)
deriving Repr, DecidableEq

/-- No number has an exponent, and of two equally short texts the greater one is written. -/
def Field.layout : Decimal.Layout :=
  ⟨none, none, false, false, .up, "NaN", "inf"⟩

def Field.name : Field → String
  | .text value => value
  | .integer value => toString value
  | .real value => layout.write value.read

end DocumentClient.Query
