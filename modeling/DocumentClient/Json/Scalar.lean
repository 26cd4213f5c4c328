import DocumentClient.Json.Reader
import DocumentClient.Json.Value

/-!
# Reading literals, numbers and texts

The parts of a JSON text that hold no other parts. A number keeps as many leading digits as fit in
64 bits and scales them by a power of ten.
-/

set_option autoImplicit false

namespace DocumentClient.Json

open Reader

def isDigit (byte : UInt8) : Bool :=
  code '0' ≤ byte && byte ≤ code '9'

def digitValue (byte : UInt8) : Nat :=
  byte.toNat - 48

/-! ## Literals -/

def takeLiteral : List Char → Reader Unit
  | [] => return ()
  | char :: chars => do
    let byte ← takeByte .endInValue
    if byte = code char then takeLiteral chars else failHere .literal

/-! ## Numbers -/

/-- A number as it is read: an integer in 64 bits, or a floating-point number by its bits. -/
inductive Number where
  | integer (value : Int)
  | real (bits : UInt64)
deriving Repr, DecidableEq

def Number.value : Number → Value
  | .integer value => .integer value
  | .real bits => .real bits

def greatestSignificand : Nat :=
  Nat.pow 2 64 - 1

def greatestExponent : Nat :=
  Nat.pow 2 31 - 1

/-- The digits at the front of some bytes, as long as the number that they stand for, continuing
`value`, fits; and how many digits these are. -/
def digitsFrom (limit value count : Nat) : Bytes → Position → (Nat × Nat) × Cursor
  | [], position => ((value, count), ⟨[], position⟩)
  | byte :: rest, position =>
    let next := value * 10 + digitValue byte
    if isDigit byte && next ≤ limit then
      digitsFrom limit next (count + 1) rest (Cursor.after position byte)
    else ((value, count), ⟨byte :: rest, position⟩)

theorem size_digitsFrom_le (limit value count : Nat) (bytes : Bytes) (position : Position) :
    (digitsFrom limit value count bytes position).2.size ≤ bytes.length := by
  induction bytes generalizing value count position with
  | nil => simp [digitsFrom, Cursor.size]
  | cons byte rest ih =>
      simp only [digitsFrom]
      split
      · exact Nat.le_trans (ih _ _ _) (by simp)
      · simp [Cursor.size]

def takeDigits (limit value : Nat) : Reader (Nat × Nat) where
  run cursor := .ok (digitsFrom limit value 0 cursor.rest cursor.position)
  size_le {cursor _ _} found := by
    simp only [Except.ok.injEq] at found
    have := size_digitsFrom_le limit value 0 cursor.rest cursor.position
    rw [found] at this
    exact this

def countDigits : Reader Nat where
  run cursor :=
    .ok ((cursor.rest.takeWhile isDigit).length, cursor.skipWhile isDigit)
  size_le {cursor _ _} found := by
    cases found
    exact Cursor.size_skipWhile_le isDigit cursor

def powerOfTen (exponent : Nat) : Float :=
  Float.ofScientific 1 false exponent

/-- A significand scaled by one power of ten; a power below the range is applied in two parts. -/
def scale (significand : Nat) (exponent : Int) : Float :=
  let value := (UInt64.ofNat significand).toFloat
  if 0 ≤ exponent then value * powerOfTen exponent.toNat
  else if -308 ≤ exponent then value / powerOfTen (-exponent).toNat
  else if -616 ≤ exponent then value / powerOfTen 308 / powerOfTen (-exponent - 308).toNat
  else 0

def signed (positive : Bool) (value : Float) : Number :=
  .real (if positive then value else -value).toBits

/-- The number of a sign, a significand and an exponent, unless it is too great. -/
def scaled (positive : Bool) (significand : Nat) (exponent : Int) : Reader Number :=
  if significand ≠ 0 ∧ 308 < exponent then failHere .numberRange
  else
    let value := scale significand (if significand = 0 then 0 else exponent)
    if value.isInf then failHere .numberRange else return signed positive value

def isSign (byte : UInt8) : Bool :=
  byte == code '+' || byte == code '-'

/-- The exponent behind its letter. One that is too great makes zero or a number out of range. -/
def takeExponent (positive : Bool) (significand : Nat) (shift : Int) : Reader Number := do
  advance
  let sign ← peek
  if sign.any isSign then advance
  let first ← takeByte .endInValue
  if !isDigit first then failHere .number
  let (exponent, _) ← takeDigits greatestExponent (digitValue first)
  let negative := sign == some (code '-')
  if (← peek).any isDigit then
    if significand ≠ 0 ∧ !negative then
      advance
      failHere .numberRange
    else
      skipWhile isDigit
      return signed positive 0
  else
    let exponent : Int := exponent
    scaled positive significand (shift + if negative then -exponent else exponent)

def isExponentMark (byte : UInt8) : Bool :=
  byte == code 'e' || byte == code 'E'

/-- The digits behind a point, of which at least one has to be there, and the exponent. -/
def takeFraction (positive : Bool) (significand : Nat) (shift : Int) : Reader Number := do
  advance
  let (significand, count) ← takeDigits greatestSignificand significand
  let next ← peek
  if count = 0 && !next.any isDigit then
    failNext (if next.isNone then .endInValue else .number)
  skipWhile isDigit
  let shift := shift - count
  if (← peek).any isExponentMark then takeExponent positive significand shift
  else scaled positive significand shift

/-- The integer of a sign and its digits; a negative zero is no integer. -/
def integerNumber (positive : Bool) (significand : Nat) : Number :=
  if positive then .integer significand
  else if significand = 0 ∨ Nat.pow 2 63 < significand then
    signed false (UInt64.ofNat significand).toFloat
  else .integer (-(significand : Int))

def takeNumberTail (positive : Bool) (significand : Nat) : Reader Number := do
  let next ← peek
  if next = some (code '.') then takeFraction positive significand 0
  else if next.any isExponentMark then takeExponent positive significand 0
  else return integerNumber positive significand

/-- What follows digits that do not fit: each further digit is one more power of ten. -/
def takeLongNumber (positive : Bool) (significand : Nat) : Reader Number := do
  let count ← countDigits
  let next ← peek
  if next = some (code '.') then takeFraction positive significand count
  else if next.any isExponentMark then takeExponent positive significand count
  else scaled positive significand count

def takeUnsigned (positive : Bool) : Reader Number := do
  let first ← takeByte .endInValue
  if !isDigit first then failHere .number
  else if first = code '0' then
    if (← peek).any isDigit then failNext .number else takeNumberTail positive 0
  else
    let (significand, _) ← takeDigits greatestSignificand (digitValue first)
    if (← peek).any isDigit then takeLongNumber positive significand
    else takeNumberTail positive significand

def takeNumber : Reader Number := do
  if (← peek) = some (code '-') then
    advance
    takeUnsigned false
  else takeUnsigned true

/-! ## Texts -/

def hexDigit? (byte : UInt8) : Option Nat :=
  if isDigit byte then some (byte.toNat - 48)
  else if code 'a' ≤ byte && byte ≤ code 'f' then some (byte.toNat - 87)
  else if code 'A' ≤ byte && byte ≤ code 'F' then some (byte.toNat - 55)
  else none

def takeHex : Reader Nat := do
  match ← ahead 4 with
  | [a, b, c, d] =>
    advance
    advance
    advance
    advance
    match hexDigit? a, hexDigit? b, hexDigit? c, hexDigit? d with
    | some a, some b, some c, some d => return ((a * 16 + b) * 16 + c) * 16 + d
    | _, _, _, _ => failHere .escape
  | _ =>
    finish
    failHere .endInText

/-- Takes the byte that the second half of a surrogate pair has to go on with. -/
def takePairByte (expected : Char) : Reader Unit := do
  let byte ← takeByte .endInText
  if byte ≠ code expected then failHere .endOfEscape

/-- The character of a numeric escape, which is a pair of escapes outside the basic plane. -/
def takeNumericEscape : Reader Char := do
  let first ← takeHex
  if 0xDC00 ≤ first ∧ first ≤ 0xDFFF then failHere .loneSurrogate
  else if 0xD800 ≤ first ∧ first ≤ 0xDBFF then
    takePairByte '\\'
    takePairByte 'u'
    let second ← takeHex
    if second < 0xDC00 ∨ 0xDFFF < second then failHere .loneSurrogate
    else return Char.ofNat ((first - 0xD800) * 1024 + (second - 0xDC00) + 0x10000)
  else return Char.ofNat first

def escapedChar? (byte : UInt8) : Option Char :=
  [('"', '"'), ('\\', '\\'), ('/', '/'), ('b', '\x08'), ('f', '\x0c'), ('n', '\n'), ('r', '\r'),
    ('t', '\t')].findSome? fun (letter, char) => if byte = code letter then some char else none

def takeEscape : Reader Char := do
  let byte ← takeByte .endInText
  match escapedChar? byte with
  | some char => return char
  | none => if byte = code 'u' then takeNumericEscape else failHere .escape

/-- The bytes up to the closing quote, each escape replaced by the bytes of its character. -/
def contentFrom (cursor : Cursor) : Except Fault (Bytes × Cursor) :=
  match _head : cursor.head? with
  | none => .error (cursor.faultHere .endInText)
  | some byte =>
    if byte = code '"' then .ok ([], cursor)
    else if byte = code '\\' then
      match _escape : takeEscape.run cursor.advance with
      | .error fault => .error fault
      | .ok (char, next) =>
        (contentFrom next).map fun (bytes, behind) => (String.utf8EncodeChar char ++ bytes, behind)
    else if byte < 0x20 then .error (cursor.faultNext .controlCharacter)
    else (contentFrom cursor.advance).map fun (bytes, behind) => (byte :: bytes, behind)
termination_by cursor.size
decreasing_by
  · have := takeEscape.size_le _escape
    have := Cursor.size_advance_lt _head
    omega
  · exact Cursor.size_advance_lt _head

theorem size_contentFrom_le {cursor behind : Cursor} {bytes : Bytes}
    (found : contentFrom cursor = .ok (bytes, behind)) : behind.size ≤ cursor.size := by
  fun_induction contentFrom cursor generalizing bytes behind with
  | case1 => cases found
  | case2 cursor =>
      cases found
      exact Nat.le_refl _
  | case3 => cases found
  | case4 cursor char next escape head _ ih =>
      obtain ⟨⟨more, last⟩, taken, same⟩ := map_eq_ok found
      cases same
      have := ih taken
      have := takeEscape.size_le escape
      have := Cursor.size_advance_lt head
      omega
  | case5 => cases found
  | case6 cursor byte head _ _ _ ih =>
      obtain ⟨⟨more, last⟩, taken, same⟩ := map_eq_ok found
      cases same
      have := ih taken
      have := Cursor.size_advance_lt head
      omega

def takeContent : Reader Bytes where
  run := contentFrom
  size_le := size_contentFrom_le

/-- The text behind an opening quote. Its bytes are known to end well before they are read as
characters, and a bad one counts back from the closing quote. -/
def takeText : Reader String := do
  let bytes ← takeContent
  match Utf8.decode bytes with
  | .error fault => failBack (bytes.length - fault.offset - 1) .codePoint
  | .ok text =>
    advance
    return text

end DocumentClient.Json
