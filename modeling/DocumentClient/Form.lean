import DocumentClient.Datum
import DocumentClient.Percent
import DocumentClient.Text.Pieces

/-!
# Form encoding

A list of named values in one line of text: pairs joined by ampersands, a name and its value by
an equals sign, a blank written as a plus sign and all else outside a small alphabet escaped.
Reading takes the line apart again.
-/

set_option autoImplicit false

namespace DocumentClient.Form

inductive Fault where
  | notPairs
  | notAPair
  | name
  | value
  | notText (fault : Utf8.Fault)
  | custom (reason : String)
deriving Repr, DecidableEq

def Fault.message : Fault → String
  | .notPairs => "top-level serializer supports only maps and structs"
  | .notAPair => "unsupported pair"
  | .name => "unsupported key"
  | .value => "unsupported value"
  | .notText fault => "invalid UTF-8: " ++ fault.message
  | .custom reason => reason

/-! ## Pairs of texts -/

/-- Everything outside the alphabet of the format. -/
def escaped : Percent.EscapeSet :=
  Percent.allExcept "*-._"

def encodeChar (char : Char) : List Char :=
  if char = ' ' then ['+'] else Percent.encodeChar escaped char

def encodeText (text : String) : String :=
  String.ofList (text.toList.flatMap encodeChar)

def encodePair (pair : String × String) : String :=
  encodeText pair.1 ++ "=" ++ encodeText pair.2

def encode (pairs : List (String × String)) : String :=
  Text.join "&" (pairs.map encodePair)

/-- A plus sign is a blank, then escapes are resolved. -/
def decodeText (chars : List Char) : Bytes :=
  Percent.decode ((chars.map fun char => if char = '+' then ' ' else char).flatMap
    String.utf8EncodeChar)

/-- A piece is cut at its first equals sign; without one it is a name with an empty value. -/
def decodePair (chars : List Char) : Bytes × Bytes :=
  (decodeText (chars.takeWhile (· != '=')), decodeText ((chars.dropWhile (· != '=')).drop 1))

/-- The pairs of a line; an empty piece is no pair. -/
def decode (line : String) : List (Bytes × Bytes) :=
  ((Text.pieces '&' line.toList).filter (!·.isEmpty)).map decodePair

/-! ## Data -/

/-- Exponents have no plus sign here, and every number has a text. -/
def doubleLayout : Decimal.Layout :=
  ⟨some (-5), some 15, true, false, .even, "NaN", "inf"⟩

def singleLayout : Decimal.Layout :=
  ⟨some (-6), some 12, true, false, .even, "NaN", "inf"⟩

def realText (number : Decimal.Binary) : String :=
  match number with
  | .double _ => doubleLayout.write number.read
  | .single _ => singleLayout.write number.read

/-- The text of a scalar; `unsupported` is the fault of anything else. -/
def scalarText (unsupported : Fault) : Datum → Except Fault String
  | .bool value => .ok (toString value)
  | .integer value => .ok (toString value)
  | .real value => .ok (realText value)
  | .char value => .ok (String.singleton value)
  | .text value => .ok value
  | .bytes value => (Utf8.decode value).mapError .notText
  | .failing reason => .error (.custom reason)
  | _ => .error unsupported

def memberTexts : Datum → Except Fault (List String)
  | .absent => .ok []
  | .present value => memberTexts value
  | value => return [← scalarText .value value]

/-- The texts under one name: none for an absent value, and one for each member of a list. -/
def valueTexts : Datum → Except Fault (List String)
  | .absent => .ok []
  | .present value => valueTexts value
  | .list items => return (← items.mapM memberTexts).flatten
  | value => return [← scalarText .value value]

def namedTexts (name value : Datum) : Except Fault (List (String × String)) := do
  let name ← scalarText .name name
  return (← valueTexts value).map (name, ·)

/-- A member of a sequence has to be a pair, unless it is absent. -/
def memberPairs : Datum → Except Fault (List (String × String))
  | .pair name value => namedTexts name value
  | .absent => .ok []
  | .present value => memberPairs value
  | .failing reason => .error (.custom reason)
  | _ => .error .notAPair

/-- The pairs of a table, of a sequence of pairs, or of nothing. -/
def pairsOf : Datum → Except Fault (List (String × String))
  | .unit | .absent => .ok []
  | .present value => pairsOf value
  | .table entries => return (← entries.mapM fun entry => namedTexts entry.1 entry.2).flatten
  | .list items => return (← items.mapM memberPairs).flatten
  | .pair first second => return (← memberPairs first) ++ (← memberPairs second)
  | .failing reason => .error (.custom reason)
  | _ => .error .notPairs

def write (datum : Datum) : Except Fault String :=
  (pairsOf datum).map encode

end DocumentClient.Form
