/-!
# UTF-8

Bytes of a text and the text of bytes. Reading refuses every sequence outside the
standard's table of well-formed sequences and says where the first bad one starts.
-/

set_option autoImplicit false

namespace DocumentClient

/-- Raw content: a message body, a header value on the wire, an encoded text. -/
abbrev Bytes := List UInt8

def utf8 (text : String) : Bytes :=
  text.toList.flatMap String.utf8EncodeChar

namespace Utf8

/-- The first ill-formed sequence of some bytes. `length` is the number of bytes that cannot be
continued, and is absent when the input ends inside a sequence. -/
structure Fault where
  offset : Nat
  length : Option Nat
deriving Repr, DecidableEq

def Fault.message (fault : Fault) : String :=
  match fault.length with
  | some length => s!"invalid utf-8 sequence of {length} bytes from index {fault.offset}"
  | none => s!"incomplete utf-8 byte sequence from index {fault.offset}"

inductive Front where
  | empty
  | char (value : Char) (width : Nat) (rest : Bytes)
  | invalid (length : Nat)
  | incomplete
deriving Repr

def isContinuation (byte : UInt8) : Bool :=
  0x80 ≤ byte && byte ≤ 0xBF

/-- The second byte is narrower than a continuation after four lead bytes: it excludes overlong
forms, surrogates, and values above U+10FFFF. -/
def isSecond (lead byte : UInt8) : Bool :=
  isContinuation byte &&
    (if lead = 0xE0 then 0xA0 ≤ byte
     else if lead = 0xED then byte ≤ 0x9F
     else if lead = 0xF0 then 0x90 ≤ byte
     else if lead = 0xF4 then byte ≤ 0x8F
     else true)

/-- The number that a lead byte with `kept` payload bits and its continuations stand for. -/
def payload (lead : UInt8) (kept : Nat) (continuations : List UInt8) : Nat :=
  continuations.foldl (fun value byte => value * 64 + byte.toNat % 64) (lead.toNat % Nat.pow 2 kept)

/-- The character at the front, or the way in which the front is ill-formed. -/
def front : Bytes → Front
  | [] => .empty
  | lead :: rest =>
    if lead < 0x80 then .char (Char.ofNat lead.toNat) 1 rest
    else if lead < 0xC2 || 0xF4 < lead then .invalid 1
    else match rest with
      | [] => .incomplete
      | second :: rest =>
        if !isSecond lead second then .invalid 1
        else if lead < 0xE0 then .char (Char.ofNat (payload lead 5 [second])) 2 rest
        else match rest with
          | [] => .incomplete
          | third :: rest =>
            if !isContinuation third then .invalid 2
            else if lead < 0xF0 then .char (Char.ofNat (payload lead 4 [second, third])) 3 rest
            else match rest with
              | [] => .incomplete
              | fourth :: rest =>
                if !isContinuation fourth then .invalid 3
                else .char (Char.ofNat (payload lead 3 [second, third, fourth])) 4 rest

theorem length_lt_of_front {bytes rest : Bytes} {value : Char} {width : Nat}
    (found : front bytes = .char value width rest) : rest.length < bytes.length := by
  unfold front at found
  repeat' split at found
  all_goals simp_all
  all_goals obtain ⟨_, _, rfl⟩ := found; omega

/-- The characters of some bytes; `offset` counts the bytes already read. -/
def charsFrom (bytes : Bytes) (offset : Nat) : Except Fault (List Char) :=
  match _found : front bytes with
  | .empty => .ok []
  | .char value width rest =>
    match charsFrom rest (offset + width) with
    | .ok values => .ok (value :: values)
    | .error fault => .error fault
  | .invalid length => .error ⟨offset, some length⟩
  | .incomplete => .error ⟨offset, none⟩
termination_by bytes.length
decreasing_by exact length_lt_of_front _found

def decode (bytes : Bytes) : Except Fault String :=
  (charsFrom bytes 0).map String.ofList

def decode? (bytes : Bytes) : Option String :=
  (decode bytes).toOption

end Utf8

end DocumentClient
