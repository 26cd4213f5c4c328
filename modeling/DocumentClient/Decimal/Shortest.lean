import DocumentClient.Decimal.Binary

/-!
# Shortest decimals

The decimal with the fewest digits among those that round to a given binary number, and of these
the nearest. All comparisons are exact: numbers are scaled to integers first.
-/

set_option autoImplicit false

namespace DocumentClient.Decimal

/-- Which of two equally near decimals is written. -/
inductive Tie where
  | up
  | even
deriving Repr, DecidableEq

/-- A positive decimal `digits * 10 ^ exponent`. -/
structure Numeral where
  digits : Nat
  exponent : Int
deriving Repr, DecidableEq

/-- Numerator and denominator of `10 ^ exponent`. -/
def tenPower (exponent : Int) : Nat × Nat :=
  if 0 ≤ exponent then (Nat.pow 10 exponent.toNat, 1) else (1, Nat.pow 10 (-exponent).toNat)

def twoPower (exponent : Int) : Nat × Nat :=
  if 0 ≤ exponent then (Nat.pow 2 exponent.toNat, 1) else (1, Nat.pow 2 (-exponent).toNat)

/-- The interval of a magnitude and a grid of decimals, scaled to integers: its two ends, the
magnitude, and the distance between neighbours on the grid. -/
structure Scaled where
  low : Nat
  value : Nat
  high : Nat
  step : Nat
deriving Repr, DecidableEq

def Magnitude.scaled (magnitude : Magnitude) (gridExponent : Int) : Scaled :=
  let (low, value, high) := magnitude.quarters
  let (tenAbove, tenBelow) := tenPower gridExponent
  let (twoAbove, twoBelow) := twoPower (magnitude.exponent - 2)
  let unit := twoAbove * tenBelow
  ⟨low * unit, value * unit, high * unit, tenAbove * twoBelow⟩

/-- Whether a multiple of the step rounds to the magnitude. -/
def Scaled.holds (scaled : Scaled) (closed : Bool) (multiple : Nat) : Bool :=
  let point := multiple * scaled.step
  if closed then scaled.low ≤ point && point ≤ scaled.high
  else scaled.low < point && point < scaled.high

/-- The multiple of the step nearest to the magnitude, of those next to it that round to it. -/
def Scaled.nearest? (scaled : Scaled) (closed : Bool) (tie : Tie) : Option Nat :=
  let below := scaled.value / scaled.step
  let above := below + 1
  match scaled.holds closed below && 0 < below, scaled.holds closed above with
  | true, true =>
    let toBelow := scaled.value - below * scaled.step
    let toAbove := above * scaled.step - scaled.value
    if toBelow < toAbove then some below
    else if toAbove < toBelow then some above
    else match tie with
      | .up => some above
      | .even => some (if below % 2 = 0 then below else above)
  | true, false => some below
  | false, true => some above
  | false, false => none

/-- The number of decimal digits of a number, zero having one. -/
def digitCount (value : Nat) : Nat :=
  (Nat.toDigits 10 value).length

def Magnitude.leadingExponent (magnitude : Magnitude) : Int :=
  let (above, below) := twoPower magnitude.exponent
  let numerator := magnitude.significand * above
  if below ≤ numerator then digitCount (numerator / below) - 1
  else
    let inverse := (below + numerator - 1) / numerator
    -- One over a number of `n` digits that is not a power of ten starts in place `-n`.
    let count := digitCount inverse
    if inverse = Nat.pow 10 (count - 1) then -((count : Int) - 1) else -(count : Int)

/-- Moves final zeros of the digits into the exponent. -/
def Numeral.trim (numeral : Numeral) : Nat → Numeral
  | 0 => numeral
  | places + 1 =>
    if numeral.digits % 10 = 0 ∧ numeral.digits ≠ 0 then
      Numeral.trim ⟨numeral.digits / 10, numeral.exponent + 1⟩ places
    else numeral

/-- The decimal with the fewest digits that rounds to the magnitude; seventeen digits always
suffice for the formats here. -/
def Magnitude.shortest (magnitude : Magnitude) (tie : Tie) : Numeral :=
  let closed := magnitude.significand % 2 = 0
  let leading := magnitude.leadingExponent
  let grids := (List.range 18).map fun (places : Nat) => leading + 1 - (places : Int)
  let found := grids.findSome? fun grid =>
    ((magnitude.scaled grid).nearest? closed tie).map fun digits => (⟨digits, grid⟩ : Numeral)
  (found.getD ⟨0, 0⟩).trim 18

end DocumentClient.Decimal
