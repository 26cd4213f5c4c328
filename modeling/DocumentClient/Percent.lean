import DocumentClient.Text.Utf8

/-!
# Percent encoding

A character is written as itself or as one escape, a percent sign and two upper-case
hexadecimal digits, for each of its bytes. Every character outside ASCII is escaped.
Reading replaces each complete escape by its byte and keeps all else.
-/

set_option autoImplicit false

namespace DocumentClient.Percent

/-- The ASCII characters that a format escapes. -/
abbrev EscapeSet := Char → Bool

def controls : EscapeSet :=
  fun char => char.toNat < 0x20 || char.toNat == 0x7F

def EscapeSet.adding (escaped : EscapeSet) (more : String) : EscapeSet :=
  fun char => escaped char || more.toList.contains char

def allExcept (kept : String) : EscapeSet :=
  fun char => !(char.isAlphanum || kept.toList.contains char)

def upperHexDigit (value : Nat) : Char :=
  if value < 10 then Char.ofNat (value + 48) else Char.ofNat (value + 55)

def hexValue? (byte : UInt8) : Option Nat :=
  if 48 ≤ byte && byte ≤ 57 then some (byte.toNat - 48)
  else if 65 ≤ byte && byte ≤ 70 then some (byte.toNat - 55)
  else if 97 ≤ byte && byte ≤ 102 then some (byte.toNat - 87)
  else none

def escapeByte (byte : UInt8) : List Char :=
  ['%', upperHexDigit (byte.toNat / 16), upperHexDigit (byte.toNat % 16)]

def encodeChar (escaped : EscapeSet) (char : Char) : List Char :=
  if char.toNat < 0x80 && !escaped char then [char]
  else (String.utf8EncodeChar char).flatMap escapeByte

def encodeChars (escaped : EscapeSet) (chars : List Char) : List Char :=
  chars.flatMap (encodeChar escaped)

def encode (escaped : EscapeSet) (text : String) : String :=
  String.ofList (encodeChars escaped text.toList)

/-- Each escape becomes its byte; a percent sign without two digits stands for itself. -/
def decode : Bytes → Bytes
  | 37 :: high :: low :: rest =>
    match hexValue? high, hexValue? low with
    | some high, some low => UInt8.ofNat (high * 16 + low) :: decode rest
    | _, _ => 37 :: decode (high :: low :: rest)
  | byte :: rest => byte :: decode rest
  | [] => []

end DocumentClient.Percent
