import DocumentClient.Json.Writer
import DocumentClient.Proofs.Json.Objects
import DocumentClient.Proofs.Text.Cutting
import DocumentClient.Proofs.Text.Utf8

/-!
# Written texts and objects read back

Whatever its characters, a text is read as itself where it was written, and a written object has the
members that were written. Main statements: `takes_writeText` and `isObject_written`.
-/

set_option autoImplicit false

namespace DocumentClient.Json

open Reader

variable {front bytes : Bytes} {next : Option UInt8}

/-! ## Escapes -/

private theorem flatMap_utf8EncodeChar {chars : List Char}
    (ascii : ∀ char ∈ chars, char.toNat < 128) :
    chars.flatMap String.utf8EncodeChar = chars.map code :=
  Text.flatMap_utf8EncodeChar_ascii ascii

private theorem takes_escape_of_letter {byte : UInt8} {char : Char}
    (known : escapedChar? byte = some char)
    (next : Option UInt8) : takeEscape.Takes [byte] char next := by
  show takeEscape.Takes ([byte] ++ []) char next
  unfold takeEscape
  refine (takes_takeByte _ byte _).bind ?_
  rw [known]
  exact takes_pure char next

private theorem hexDigit?_hexDigit {number : Nat} (digit : number < 16) :
    hexDigit? (code (hexDigit number)) = some number := by
  have all : ∀ number < 16, hexDigit? (code (hexDigit number)) = some number := by decide
  exact all number digit

private theorem ascii_hexDigit {number : Nat} (digit : number < 16) :
    (hexDigit number).toNat < 128 := by
  have all : ∀ number < 16, (hexDigit number).toNat < 128 := by decide
  exact all number digit

/-- The letters behind a backslash for a control character. -/
def controlLetters (number : Nat) : List Char :=
  ['u', '0', '0', hexDigit (number / 16), hexDigit (number % 16)]

private theorem ascii_controlLetters {number : Nat} (control : number < 0x20) :
    ∀ char ∈ controlLetters number, char.toNat < 128 := by
  have high := ascii_hexDigit (show number / 16 < 16 by omega)
  have low := ascii_hexDigit (show number % 16 < 16 by omega)
  simp [controlLetters, high, low]

private theorem takes_hex_of_control {number : Nat} (control : number < 0x20)
    (next : Option UInt8) :
    takeHex.Takes [code '0', code '0', code (hexDigit (number / 16)), code (hexDigit (number % 16))]
      number next := by
  intro rest position _
  have zero : hexDigit? (code '0') = some 0 := by decide
  have value : ((0 * 16 + 0) * 16 + number / 16) * 16 + number % 16 = number := by omega
  have run := run_takeHex_of_four (code '0') (code '0') (code (hexDigit (number / 16)))
    (code (hexDigit (number % 16))) rest position
  rw [zero, hexDigit?_hexDigit (by omega), hexDigit?_hexDigit (by omega)] at run
  dsimp only at run
  rw [value] at run
  exact ⟨_, run⟩

private theorem takes_escape_of_control {number : Nat} (control : number < 0x20)
    (next : Option UInt8) :
    takeEscape.Takes ((controlLetters number).map code) (Char.ofNat number) next := by
  have letter : escapedChar? (code 'u') = none := by decide
  show takeEscape.Takes ([code 'u'] ++ _) _ _
  unfold takeEscape
  refine (takes_takeByte _ (code 'u') _).bind ?_
  rw [letter]
  refine Takes.if_pos ?_ rfl
  show takeNumericEscape.Takes
    ([code '0', code '0', code (hexDigit (number / 16)), code (hexDigit (number % 16))] ++ []) _ _
  unfold takeNumericEscape
  refine (takes_hex_of_control control _).bind ?_
  exact ((takes_pure _ next).if_neg (by omega)).if_neg (by omega)

theorem Reader.Takes.content_of_letters {letters : List Char} {char : Char}
    (ascii : ∀ letter ∈ letters, letter.toNat < 128)
    (escapes : ∀ next, takeEscape.Takes (letters.map code) char next)
    (takes : takeContent.Takes front bytes next) :
    takeContent.Takes (('\\' :: letters).flatMap String.utf8EncodeChar ++ front)
      (String.utf8EncodeChar char ++ bytes) next := by
  rw [flatMap_utf8EncodeChar (List.forall_mem_cons.mpr ⟨by decide, ascii⟩)]
  exact takes.content_of_escape escapes

/-! ## Plain characters -/

/-- Not an end of a text, not an escape, and no control character. -/
def isPlain (byte : UInt8) : Bool :=
  byte != code '"' && byte != code '\\' && 0x20 ≤ byte

theorem Reader.Takes.content_of_plains {plain : Bytes} (plains : ∀ byte ∈ plain, isPlain byte = true)
    (takes : takeContent.Takes front bytes next) :
    takeContent.Takes (plain ++ front) (plain ++ bytes) next := by
  induction plain with
  | nil => exact takes
  | cons byte plain ih =>
      obtain ⟨here, others⟩ := List.forall_mem_cons.mp plains
      simp only [isPlain, Bool.and_eq_true, bne_iff_ne, decide_eq_true_eq] at here
      exact (ih others).content_of_plain here.1.1 here.1.2 here.2

private theorem isPlain_of_mem_utf8EncodeChar {char : Char} (notQuote : char ≠ '"')
    (notBackslash : char ≠ '\\') (shown : 0x20 ≤ char.toNat) {byte : UInt8}
    (member : byte ∈ String.utf8EncodeChar char) : isPlain byte = true := by
  by_cases ascii : char.toNat < 128
  · have all := Text.ascii_all (fun char => char == '"' || char == '\\' || char.toNat < 0x20 ||
      isPlain char.toUInt8) (by decide +kernel) ascii
    rw [Text.utf8EncodeChar_ascii ascii, List.mem_singleton] at member
    simpa [notQuote, notBackslash, Nat.not_lt.mpr shown, ← member] using all
  · have wide := Utf8.le_of_mem_utf8EncodeChar (Nat.not_lt.mp ascii) member
    have all := byte_all (fun byte => byte < 0x80 || isPlain byte) (by decide +kernel) byte
    simpa [UInt8.not_lt.mpr wide] using all

/-! ## Texts -/

theorem Reader.Takes.content_of_char (char : Char) (takes : takeContent.Takes front bytes next) :
    takeContent.Takes ((escapeChar char).flatMap String.utf8EncodeChar ++ front)
      (String.utf8EncodeChar char ++ bytes) next := by
  unfold escapeChar
  split
  iterate 7 exact takes.content_of_letters (by simp) (takes_escape_of_letter (by decide))
  rename_i notQuote notBackslash _ _ _ _ _
  split
  · rename_i control
    refine takes.content_of_letters (ascii_controlLetters control) fun next => ?_
    have escapes := takes_escape_of_control control next
    rwa [Char.ofNat_toNat] at escapes
  · rename_i shown
    rw [List.flatMap_singleton]
    exact takes.content_of_plains fun byte member =>
      isPlain_of_mem_utf8EncodeChar notQuote notBackslash (Nat.not_lt.mp shown) member

private theorem takes_content_of_chars (chars : List Char) :
    takeContent.Takes ((chars.flatMap escapeChar).flatMap String.utf8EncodeChar)
      (chars.flatMap String.utf8EncodeChar) (some (code '"')) := by
  induction chars with
  | nil => exact takes_content_of_quote
  | cons char chars ih =>
      rw [List.flatMap_cons, List.flatMap_append, List.flatMap_cons]
      exact ih.content_of_char char

private theorem utf8_writeText (text : String) :
    utf8 (writeText text) = code '"' ::
      ((text.toList.flatMap escapeChar).flatMap String.utf8EncodeChar ++ [code '"']) := by
  have quote : String.utf8EncodeChar '"' = [code '"'] := by decide
  rw [writeText, utf8_ofList, List.flatMap_append, List.flatMap_cons, List.flatMap_singleton, quote]
  rfl

/-- A written text is read as it was. -/
theorem takes_writeText (text : String) (levels : Nat) (next : Option UInt8) :
    (Json.text levels).Takes (utf8 (writeText text)) text next := by
  have inside := (takes_content_of_chars text.toList).text (Utf8.decode_utf8 text) next
  rw [utf8_writeText]
  have blanks : skipBlanks.Takes [] () (some (code '"')) := takes_skipWhile (by simp) (by decide)
  refine Takes.bind_nothing blanks (Takes.bind_nothing (takes_peek _) (Takes.if_pos ?_ rfl))
  exact (takes_advance (code '"') _).bind inside

theorem Reader.Takes.alone {α : Type} {reader : Reader α} {value : α}
    (takes : reader.Takes front value none) : Alone reader front value := by
  obtain ⟨last, found⟩ := takes [] ⟨1, 0⟩ rfl
  rw [List.append_nil] at found
  exact ⟨_, found⟩

theorem alone_writeText (text : String) (levels : Nat) :
    Alone (Json.text levels) (utf8 (writeText text)) text :=
  (takes_writeText text levels none).alone

theorem Reader.Takes.optional {α : Type} {decoder : Decoder α} {levels : Nat} {value : α}
    {byte : UInt8} (takes : (decoder levels).Takes front value next) (begins : front.head? = some byte)
    (shown : isBlank byte = false) (other : byte ≠ code 'n') :
    (Json.optional decoder levels).Takes front (some value) next := by
  have head : front.head?.or next = some byte := by
    rw [begins]
    rfl
  have blanks : skipBlanks.Takes [] () (some byte) := takes_skipWhile (by simp) (by simpa using shown)
  have read : (decoder levels >>= fun value => pure (some value)).Takes (front ++ []) (some value)
      next := Takes.bind takes (takes_pure (some value) next)
  rw [List.append_nil] at read
  refine Takes.bind_nothing (head.symm ▸ blanks) (Takes.bind_nothing (takes_peek _) ?_)
  rw [head]
  exact read.if_neg (by simpa using other)

theorem alone_optional_writeText (text : String) (levels : Nat) :
    Alone (optional Json.text levels) (utf8 (writeText text)) (some text) := by
  have begins : (utf8 (writeText text)).head? = some (code '"') :=
    congrArg List.head? (utf8_writeText text)
  exact ((takes_writeText text levels none).optional begins (by decide) (by decide)).alone

/-! ## Objects -/

/-- A value that nothing behind it goes on with, without blanks in front. -/
structure Closed (element : Bytes) : Prop where
  begins : ∃ byte more, element = byte :: more ∧ isBlank byte = false
  first (rest : Bytes) : FirstValue element rest

theorem Closed.afterBlanks {element : Bytes} (closed : Closed element) (rest : Bytes) :
    Json.afterBlanks (element ++ rest) = element ++ rest := by
  obtain ⟨byte, more, rfl, shown⟩ := closed.begins
  exact afterBlanks_of_head shown

theorem Reader.Lawful.firstValue {α : Type} {reader : Reader α} {value : α}
    (lawful : reader.Lawful) {rest : Bytes} (takes : reader.Takes front value rest.head?) :
    FirstValue front rest := by
  obtain ⟨behind, found⟩ := takes rest ⟨1, 0⟩ rfl
  exact (lawful.settles found).1

theorem closed_writeText (text : String) : Closed (utf8 (writeText text)) where
  begins := ⟨_, _, utf8_writeText text, by decide⟩
  first rest := (lawful_text 0).firstValue (takes_writeText text 0 rest.head?)

private theorem names_writeText (name : String) (value : Bytes) :
    Names (utf8 (writeText name) ++ code ':' :: value) name value :=
  ⟨_, _, (closed_writeText name).afterBlanks _, (closed_writeText name).first _,
    alone_writeText name 0, afterBlanks_of_head (by simp; decide)⟩

/-- The text of a member with this name and the text of its value. -/
def memberText (member : String × String) : String :=
  writeText member.1 ++ ":" ++ member.2

def objectText (members : List (String × String)) : String :=
  "\x7b" ++ Text.join "," (members.map memberText) ++ "\x7d"

/-- The members of an object by the bytes of their values. -/
def memberBytes (members : List (String × String)) : List (String × Bytes) :=
  members.map fun member => (member.1, utf8 member.2)

private theorem utf8_memberText (member : String × String) :
    utf8 (memberText member) = utf8 (writeText member.1) ++ code ':' :: utf8 member.2 := by
  have colon : utf8 ":" = [code ':'] := by decide
  rw [memberText, utf8_append, utf8_append, colon, List.append_assoc, List.singleton_append]

theorem Members.behindComma {members : List (String × Bytes)} {bytes start rest : Bytes}
    (holds : Members true members start rest) (present : members ≠ [])
    (comma : Json.afterBlanks bytes = code ',' :: start) : Members false members bytes rest := by
  cases holds with
  | closes => exact absurd rfl present
  | member leads names begins first others =>
      obtain rfl : _ = start := leads
      exact .member comma names begins first others

private theorem members_written {members : List (String × String)}
    (closed : ∀ member ∈ members, Closed (utf8 member.2)) (rest : Bytes) :
    Members true (memberBytes members)
      (utf8 (Text.join "," (members.map memberText)) ++ code '\x7d' :: rest) rest := by
  induction members with
  | nil => exact .closes (afterBlanks_of_head rfl)
  | cons member others ih =>
      obtain ⟨here, further⟩ := List.forall_mem_cons.mp closed
      have first {behind : Bytes} (holds : Members false (memberBytes others) behind rest) :
          Members true (memberBytes (member :: others)) (utf8 (memberText member) ++ behind)
            rest := by
        rw [utf8_memberText, List.append_assoc, List.cons_append]
        exact .member rfl (names_writeText _ _) (here.afterBlanks behind) (here.first behind) holds
      cases others with
      | nil => exact first (.closes (afterBlanks_of_head rfl))
      | cons next more =>
          have comma : utf8 "," = [code ','] := by decide
          rw [List.map_cons, Text.join_cons _ _ (by simp), utf8_append, utf8_append, comma,
            List.append_assoc, List.append_assoc]
          exact first ((ih further).behindComma (by simp [memberBytes]) (afterBlanks_of_head rfl))

private theorem utf8_objectText (members : List (String × String)) :
    utf8 (objectText members) =
      code '\x7b' :: (utf8 (Text.join "," (members.map memberText)) ++ [code '\x7d']) := by
  have opening : utf8 "\x7b" = [code '\x7b'] := by decide
  have closing : utf8 "\x7d" = [code '\x7d'] := by decide
  rw [objectText, utf8_append, utf8_append, opening, closing, List.append_assoc,
    List.singleton_append]

/-- A written object has the members that were written. -/
theorem isObject_written {members : List (String × String)}
    (closed : ∀ member ∈ members, Closed (utf8 member.2)) :
    IsObject (memberBytes members) (utf8 (objectText members)) := by
  refine ⟨_, [], ?_, members_written closed [], rfl⟩
  rw [utf8_objectText]
  exact afterBlanks_of_head rfl

theorem closed_objectText {members : List (String × String)}
    (closed : ∀ member ∈ members, Closed (utf8 member.2)) : Closed (utf8 (objectText members)) where
  begins := ⟨_, _, utf8_objectText members, by decide⟩
  first rest := by
    have content : Content .object _ rest := (members_written closed rest).continues
    rw [FirstValue, utf8_objectText, List.cons_append, afterBlanks_of_head rfl, List.append_assoc,
      List.singleton_append]
    exact content.stands

end DocumentClient.Json
