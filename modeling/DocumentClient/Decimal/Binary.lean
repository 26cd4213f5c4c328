/-!
# Binary floating-point numbers

A finite number taken apart into sign, significand and exponent. The numbers that round to it form
an interval around it, whose ends belong to it when the significand is even.
-/

set_option autoImplicit false

namespace DocumentClient.Decimal

/-- An interchange format: stored significand bits, exponent bits. -/
structure BinaryFormat where
  fractionBits : Nat
  exponentBits : Nat
deriving Repr, DecidableEq

def BinaryFormat.double : BinaryFormat := ⟨52, 11⟩

def BinaryFormat.single : BinaryFormat := ⟨23, 8⟩

/-- A positive number `significand * 2 ^ exponent`. `onBoundary` tells that the number below is
only half as far away as the number above. -/
structure Magnitude where
  significand : Nat
  exponent : Int
  onBoundary : Bool
deriving Repr, DecidableEq

/-- What a bit pattern stands for. -/
inductive Reading where
  | nan
  | infinite (negative : Bool)
  | zero (negative : Bool)
  | finite (negative : Bool) (magnitude : Magnitude)
deriving Repr, DecidableEq

def BinaryFormat.read (format : BinaryFormat) (bits : Nat) : Reading :=
  let fraction := bits % Nat.pow 2 format.fractionBits
  let biased := bits / Nat.pow 2 format.fractionBits % Nat.pow 2 format.exponentBits
  let negative := bits / Nat.pow 2 (format.fractionBits + format.exponentBits) % 2 == 1
  let top := Nat.pow 2 format.exponentBits - 1
  let leastExponent : Int := 2 - Nat.pow 2 (format.exponentBits - 1) - format.fractionBits
  if biased = top then if fraction = 0 then .infinite negative else .nan
  else if biased = 0 then
    if fraction = 0 then .zero negative else .finite negative ⟨fraction, leastExponent, false⟩
  else
    .finite negative
      ⟨Nat.pow 2 format.fractionBits + fraction, leastExponent + (biased - 1), fraction = 0 && 1 < biased⟩

/-- The numbers that round to a magnitude, in quarters of its last place: the lower end, the
magnitude itself, and the upper end. -/
def Magnitude.quarters (magnitude : Magnitude) : Nat × Nat × Nat :=
  let middle := 4 * magnitude.significand
  (if magnitude.onBoundary then middle - 1 else middle - 2, middle, middle + 2)

end DocumentClient.Decimal
