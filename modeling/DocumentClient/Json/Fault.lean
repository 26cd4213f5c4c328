import DocumentClient.Json.Writer
import DocumentClient.Text.Quoted

/-!
# Reading faults

Why a text is not the JSON that a reader wants: by cause, with the line and column where reading
stopped and the way from the root to the value that was being read.
-/

set_option autoImplicit false

namespace DocumentClient.Json

/-- What was found where something else was wanted. -/
inductive Found where
  | null
  | bool (value : Bool)
  | integer (value : Int)
  | real (bits : UInt64)
  | text (value : String)
  | list
  | object
deriving Repr, DecidableEq

def Found.message : Found → String
  | .null => "null"
  | .bool value => s!"boolean `{value}`"
  | .integer value => s!"integer `{value}`"
  | .real bits => "floating point `" ++ writeReal (.double bits) ++ "`"
  | .text value => "string " ++ Text.quoted value
  | .list => "sequence"
  | .object => "map"

/-- Why reading stopped. -/
inductive Cause where
  | endInList
  | endInObject
  | endInText
  | endInValue
  | colon
  | listCommaOrEnd
  | objectCommaOrEnd
  | literal
  | value
  | escape
  | number
  | numberRange
  | codePoint
  | controlCharacter
  | nameNotText
  | loneSurrogate
  | trailingComma
  | trailingCharacters
  | endOfEscape
  | nesting
  | wrongType (found : Found) (wanted : String)
  | wrongValue (found : Found) (wanted : String)
  | wrongLength (length : Nat) (wanted : String)
  | missingField (name : String)
  | duplicateField (name : String)
deriving Repr, DecidableEq

def Cause.message : Cause → String
  | .endInList => "EOF while parsing a list"
  | .endInObject => "EOF while parsing an object"
  | .endInText => "EOF while parsing a string"
  | .endInValue => "EOF while parsing a value"
  | .colon => "expected `:`"
  | .listCommaOrEnd => "expected `,` or `]`"
  | .objectCommaOrEnd => "expected `,` or `\x7d`"
  | .literal => "expected ident"
  | .value => "expected value"
  | .escape => "invalid escape"
  | .number => "invalid number"
  | .numberRange => "number out of range"
  | .codePoint => "invalid unicode code point"
  | .controlCharacter => "control character (\\u0000-\\u001F) found while parsing a string"
  | .nameNotText => "key must be a string"
  | .loneSurrogate => "lone leading surrogate in hex escape"
  | .trailingComma => "trailing comma"
  | .trailingCharacters => "trailing characters"
  | .endOfEscape => "unexpected end of hex escape"
  | .nesting => "recursion limit exceeded"
  | .wrongType found wanted => s!"invalid type: {found.message}, expected {wanted}"
  | .wrongValue found wanted => s!"invalid value: {found.message}, expected {wanted}"
  | .wrongLength length wanted => s!"invalid length {length}, expected {wanted}"
  | .missingField name => s!"missing field `{name}`"
  | .duplicateField name => s!"duplicate field `{name}`"

/-- A step from a value to one of its parts. A name that could not be read is unknown. -/
inductive Step where
  | item (index : Nat)
  | member (name : String)
  | unknown
deriving Repr, DecidableEq

/-- Steps from the root: indices in brackets, names behind a dot unless they come first. -/
def pathText : List Step → String
  | [] => "."
  | steps =>
    String.join (steps.zipIdx.map fun (step, place) =>
      let dot := if place = 0 then "" else "."
      match step with
      | .item index => s!"[{index}]"
      | .member name => dot ++ name
      | .unknown => dot ++ "?")

structure Fault where
  path : List Step
  cause : Cause
  position : Position
deriving Repr, DecidableEq

/-- The same fault, seen from one step further up. -/
def Fault.under (step : Step) (fault : Fault) : Fault :=
  { fault with path := step :: fault.path }

def Fault.message (fault : Fault) : String :=
  fault.position.behind fault.cause.message

end DocumentClient.Json
