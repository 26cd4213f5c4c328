import DocumentClient.Error
import DocumentClient.Text.Case
import DocumentClient.TextMap

/-!
# Headers on the wire

Names are tokens and do not depend on case, values are lines. More may be sent in a value than is
taken from one that is received, and of repeated names the last value is taken.
-/

set_option autoImplicit false

namespace DocumentClient.Wire

/-- Headers in their order, names in lower case. -/
abbrev Headers := List (String × Bytes)

def isTokenChar (char : Char) : Bool :=
  char.isAlphanum || "!#$%&'*+-.^_|~".toList.contains char || char.toNat == 96

/-- A byte of a value: a tab, or anything but control characters. -/
def isValueByte (byte : UInt8) : Bool :=
  byte == 9 || (32 ≤ byte && byte != 127)

def isTextByte (byte : UInt8) : Bool :=
  byte == 9 || (32 ≤ byte && byte < 127)

def greatestName : Nat := 65535

/-- A header as it is sent, its name checked first. -/
def sendable (header : String × String) : Except RequestFault (String × Bytes) :=
  let (name, value) := header
  if name.isEmpty || greatestName < name.length || !name.toList.all isTokenChar then
    .error .headerName
  else if !(utf8 value).all isValueByte then .error .headerValue
  else .ok (Text.lowerCase name, utf8 value)

/-- So many names have room in the headers of a request, as long as they do not collide there. -/
def greatestNames : Nat := 24576

def namesOf (headers : Headers) : List String :=
  (headers.map (·.1)).eraseDups

/-- Adds a header behind others. Where there is no room for a further name there is none for a
further value either. -/
def addSendable (headers : Headers) (header : String × String) : Except RequestFault Headers := do
  let sent ← sendable header
  if greatestNames ≤ (namesOf headers).length then .error .headersFull
  else .ok (headers ++ [sent])

/-- The headers of a map in the order in which it is gone through. Which of several faults is
reported depends on that order. -/
def sendableAll (headers : TextMap) : Except RequestFault Headers :=
  headers.entries.foldlM addSendable []

def receivable? (header : String × Bytes) : Option (String × String) :=
  if header.2.all isTextByte then
    some (header.1, String.ofList (header.2.map fun byte => Char.ofNat byte.toNat))
  else none

/-- The received headers that have a text; of repeated names the last one. -/
def received (headers : Headers) : TextMap :=
  .ofList (headers.filterMap receivable?)

def valuesOf (name : String) (headers : Headers) : List Bytes :=
  (headers.filter (·.1 == name)).map (·.2)

/-! ## Framing headers -/

def isBlankByte (byte : UInt8) : Bool :=
  byte == 32 || byte == 9

def trimBytes (bytes : Bytes) : Bytes :=
  ((bytes.dropWhile isBlankByte).reverse.dropWhile isBlankByte).reverse

def splitBytes (separator : UInt8) : Bytes → List Bytes
  | [] => [[]]
  | byte :: rest =>
    if byte = separator then [] :: splitBytes separator rest
    else match splitBytes separator rest with
      | [] => [[byte]]
      | piece :: others => (byte :: piece) :: others

def digitsValue? (digits : Bytes) : Option Nat :=
  if digits.isEmpty || !digits.all (fun byte => 48 ≤ byte && byte ≤ 57) then none
  else
    let value := digits.foldl (fun value byte => value * 10 + (byte.toNat - 48)) 0
    if value < Nat.pow 2 64 then some value else none

/-- The length that headers declare. Several declarations have to agree. -/
def declaredLength? (headers : Headers) : Option Nat := do
  let values := (valuesOf "content-length" headers).flatMap (splitBytes 44)
  let lengths ← values.mapM fun value => digitsValue? (trimBytes value)
  let length ← lengths.head?
  if lengths.all (· == length) then some length else none

/-- Whether the last transfer coding is the one in chunks. A value that is no text names none. -/
def endsInChunks (headers : Headers) : Bool :=
  match (valuesOf "transfer-encoding" headers).getLast? with
  | none => false
  | some value =>
    let coding := (((splitBytes 44 value).getLast?).map trimBytes).getD []
    value.all isTextByte &&
      (coding.map fun byte => (Char.ofNat byte.toNat).toLower) == "chunked".toList

end DocumentClient.Wire
