import DocumentClient.Decimal.Shortest

/-!
# Number layouts

How a format writes a floating-point number: which numbers stand in positional notation, what
an exponent looks like, and the texts of the numbers that have no digits.
-/

set_option autoImplicit false

namespace DocumentClient.Decimal

/-- A format's decisions on floating-point numbers. Numbers whose first digit stands between
`leastPositional` and `greatestPositional` are positional, and all are where a bound is absent. -/
structure Layout where
  leastPositional : Option Int
  greatestPositional : Option Int
  keepsPoint : Bool
  plusInExponent : Bool
  tie : Tie
  nan : String
  infinity : String
deriving Repr, DecidableEq

/-- Digits with a point in the place of the exponent, and zeros up to it. -/
def positional (keepsPoint : Bool) (numeral : Numeral) : String :=
  let digits := Nat.toDigits 10 numeral.digits
  if 0 ≤ numeral.exponent then
    String.ofList (digits ++ List.replicate numeral.exponent.toNat '0' ++
      (if keepsPoint then ['.', '0'] else []))
  else
    let places := (-numeral.exponent).toNat
    let padded := List.replicate (places + 1 - digits.length) '0' ++ digits
    let whole := padded.length - places
    String.ofList (padded.take whole ++ '.' :: padded.drop whole)

/-- One digit, a point and the other digits if there are any, and the exponent of the first. -/
def scientific (plus : Bool) (numeral : Numeral) (exponent : Int) : String :=
  let sign := if plus && 0 ≤ exponent then "+" else ""
  let mantissa := match Nat.toDigits 10 numeral.digits with
    | [] => ""
    | [digit] => String.ofList [digit]
    | digit :: more => String.ofList (digit :: '.' :: more)
  mantissa ++ "e" ++ sign ++ toString exponent

def Layout.writeDecimal (layout : Layout) (numeral : Numeral) : String :=
  let first : Int := numeral.exponent + (digitCount numeral.digits - 1)
  let positionalBelow := layout.leastPositional.all (· ≤ first)
  let positionalAbove := layout.greatestPositional.all (first ≤ ·)
  if positionalBelow && positionalAbove then positional layout.keepsPoint numeral
  else scientific layout.plusInExponent numeral first

def Layout.write (layout : Layout) : Reading → String
  | .nan => layout.nan
  | .infinite negative => (if negative then "-" else "") ++ layout.infinity
  | .zero negative =>
    (if negative then "-" else "") ++ (if layout.keepsPoint then "0.0" else "0")
  | .finite negative magnitude =>
    (if negative then "-" else "") ++ layout.writeDecimal (magnitude.shortest layout.tie)

/-- A floating-point number by its bits, in one of the two widths. -/
inductive Binary where
  | double (bits : UInt64)
  | single (bits : UInt32)
deriving Repr, DecidableEq

def Binary.read : Binary → Reading
  | .double bits => BinaryFormat.double.read bits.toNat
  | .single bits => BinaryFormat.single.read bits.toNat

def Binary.isFinite (number : Binary) : Bool :=
  match number.read with
  | .zero _ | .finite .. => true
  | _ => false

end DocumentClient.Decimal
