import DocumentClient.Datum
import DocumentClient.Json.Position
import DocumentClient.Text.Pieces

/-!
# Writing JSON

The compact text of a datum, entries in their given order. Names of entries are texts, or scalars
in quotes.
-/

set_option autoImplicit false

namespace DocumentClient.Json

inductive WriteFault where
  | nameNotText
  | nameNotFinite
  | custom (reason : String)
deriving Repr, DecidableEq

def WriteFault.message : WriteFault → String
  | .nameNotText => "key must be a string"
  | .nameNotFinite => "float key must be finite (got NaN or +/-inf)"
  | .custom reason =>
    match Position.ofReason? reason with
    | none => reason
    | some (position, reason) => position.behind reason

/-- Numbers whose first digit stands between the fifth place behind the point and the sixteenth
before it are positional. -/
def doubleLayout : Decimal.Layout :=
  ⟨some (-5), some 15, true, true, .even, "null", "null"⟩

/-- The narrower format turns to exponents earlier above one and later below. -/
def singleLayout : Decimal.Layout :=
  ⟨some (-6), some 12, true, true, .even, "null", "null"⟩

def writeReal (number : Decimal.Binary) : String :=
  match number with
  | .double _ => if number.isFinite then doubleLayout.write number.read else "null"
  | .single _ => if number.isFinite then singleLayout.write number.read else "null"

def hexDigit (value : Nat) : Char :=
  if value < 10 then Char.ofNat (value + 48) else Char.ofNat (value + 87)

/-- A quote, a backslash and a control character are written behind a backslash. -/
def escapeChar (char : Char) : List Char :=
  match char with
  | '"' => ['\\', '"']
  | '\\' => ['\\', '\\']
  | '\n' => ['\\', 'n']
  | '\r' => ['\\', 'r']
  | '\t' => ['\\', 't']
  | '\x08' => ['\\', 'b']
  | '\x0c' => ['\\', 'f']
  | _ =>
    if char.toNat < 0x20 then
      ['\\', 'u', '0', '0', hexDigit (char.toNat / 16), hexDigit (char.toNat % 16)]
    else [char]

def writeText (text : String) : String :=
  String.ofList ('"' :: text.toList.flatMap escapeChar ++ ['"'])

def writeName : Datum → Except WriteFault String
  | .text value => .ok (writeText value)
  | .char value => .ok (writeText (String.singleton value))
  | .bool value => .ok (writeText (toString value))
  | .integer value => .ok (writeText (toString value))
  | .real value => if value.isFinite then .ok (writeText (writeReal value)) else .error .nameNotFinite
  | .present value => writeName value
  | .failing reason => .error (.custom reason)
  | _ => .error .nameNotText

mutual

def write : Datum → Except WriteFault String
  | .unit | .absent => .ok "null"
  | .present value => write value
  | .bool value => .ok (toString value)
  | .integer value => .ok (toString value)
  | .real value => .ok (writeReal value)
  | .char value => .ok (writeText (String.singleton value))
  | .text value => .ok (writeText value)
  | .bytes value => .ok ("[" ++ Text.join "," (value.map (toString ·.toNat)) ++ "]")
  | .list items => return "[" ++ Text.join "," (← writeItems items) ++ "]"
  | .pair first second => return "[" ++ (← write first) ++ "," ++ (← write second) ++ "]"
  | .table entries => return "\x7b" ++ Text.join "," (← writeEntries entries) ++ "\x7d"
  | .failing reason => .error (.custom reason)

def writeItems : List Datum → Except WriteFault (List String)
  | [] => .ok []
  | item :: rest => return (← write item) :: (← writeItems rest)

def writeEntries : List (Datum × Datum) → Except WriteFault (List String)
  | [] => .ok []
  | (name, value) :: rest =>
    return ((← writeName name) ++ ":" ++ (← write value)) :: (← writeEntries rest)

end

end DocumentClient.Json
