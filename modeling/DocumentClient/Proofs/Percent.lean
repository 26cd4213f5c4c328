import DocumentClient.Percent
import DocumentClient.Proofs.Text.Ascii

/-!
# Percent encoding and its reading

What is written holds only characters that the format keeps and characters of escapes. A format
that escapes the percent sign is read back: resolving the escapes of a written text gives its bytes.
A text that a format has written is not escaped again by a format that keeps the percent sign.
-/

set_option autoImplicit false

namespace DocumentClient.Percent

/-- A character that a format writes as itself. -/
def Kept (escaped : EscapeSet) (char : Char) : Prop :=
  char.toNat < 128 ∧ escaped char = false

def isEscapeChar (char : Char) : Bool :=
  "%0123456789ABCDEF".toList.contains char

/-! ## What is written -/

theorem encodeChar_of_kept {escaped : EscapeSet} {char : Char} (kept : Kept escaped char) :
    encodeChar escaped char = [char] := by
  simp [encodeChar, kept.1, kept.2]

theorem encodeChar_of_not_kept {escaped : EscapeSet} {char : Char}
    (escapes : ¬ Kept escaped char) :
    encodeChar escaped char = (String.utf8EncodeChar char).flatMap escapeByte := by
  have condition : (decide (char.toNat < 128) && !escaped char) = false := by
    simpa [Kept] using escapes
  simp [encodeChar, condition]

theorem encodeChars_eq_self {escaped : EscapeSet} {chars : List Char}
    (kept : ∀ char ∈ chars, Kept escaped char) : encodeChars escaped chars = chars := by
  induction chars with
  | nil => rfl
  | cons char chars ih =>
      have unchanged : encodeChars escaped chars = chars :=
        ih fun other member => kept other (List.mem_cons_of_mem _ member)
      rw [encodeChars] at unchanged ⊢
      rw [List.flatMap_cons, encodeChar_of_kept (kept char List.mem_cons_self), unchanged]
      rfl

private theorem isEscapeChar_upperHexDigit {value : Nat} (small : value < 16) :
    isEscapeChar (upperHexDigit value) = true :=
  (by decide : ∀ value < 16, isEscapeChar (upperHexDigit value) = true) value small

private theorem isEscapeChar_of_mem_escapeByte {byte : UInt8} {char : Char}
    (member : char ∈ escapeByte byte) : isEscapeChar char = true := by
  have bound : byte.toNat < 256 := byte.toNat_lt
  simp only [escapeByte, List.mem_cons, List.not_mem_nil, or_false] at member
  rcases member with rfl | rfl | rfl
  · rfl
  · exact isEscapeChar_upperHexDigit (by omega)
  · exact isEscapeChar_upperHexDigit (by omega)

theorem mem_encodeChars {escaped : EscapeSet} {chars : List Char} {char : Char}
    (member : char ∈ encodeChars escaped chars) :
    (char ∈ chars ∧ Kept escaped char) ∨ isEscapeChar char = true := by
  obtain ⟨source, inside, written⟩ := List.mem_flatMap.mp member
  by_cases kept : Kept escaped source
  · rw [encodeChar_of_kept kept, List.mem_singleton] at written
    subst written
    exact .inl ⟨inside, kept⟩
  · rw [encodeChar_of_not_kept kept] at written
    obtain ⟨byte, _, written⟩ := List.mem_flatMap.mp written
    exact .inr (isEscapeChar_of_mem_escapeByte written)

theorem ascii_of_isEscapeChar {char : Char} (escape : isEscapeChar char = true) :
    char.toNat < 128 := by
  have narrow :
      "%0123456789ABCDEF".toList.all (fun digit => decide (digit.toNat < 128)) = true := by
    decide
  rw [isEscapeChar, List.contains_iff_mem] at escape
  exact of_decide_eq_true (List.all_eq_true.mp narrow char escape)

private theorem ascii_of_mem_encodeChars {escaped : EscapeSet} {chars : List Char} {char : Char}
    (member : char ∈ encodeChars escaped chars) : char.toNat < 128 := by
  rcases mem_encodeChars member with ⟨_, kept⟩ | escape
  · exact kept.1
  · exact ascii_of_isEscapeChar escape

theorem encodeChars_all {escaped : EscapeSet} (holds : Char → Bool)
    (checked : (List.range 128).all (fun code =>
      (escaped (Char.ofNat code) && !isEscapeChar (Char.ofNat code)) ||
        holds (Char.ofNat code)) = true)
    {chars : List Char} {char : Char} (member : char ∈ encodeChars escaped chars) :
    holds char = true := by
  have found : ((escaped char && !isEscapeChar char) || holds char) = true :=
    Text.ascii_all (fun char => (escaped char && !isEscapeChar char) || holds char) checked
      (ascii_of_mem_encodeChars member)
  rcases mem_encodeChars member with ⟨_, kept⟩ | escape
  · simpa [kept.2] using found
  · simpa [escape] using found

/-- A format that keeps the characters of escapes writes nothing that it would escape again. -/
theorem kept_of_mem_encodeChars {escaped : EscapeSet}
    (keeps : "%0123456789ABCDEF".toList.all (!escaped ·) = true) {chars : List Char} {char : Char}
    (member : char ∈ encodeChars escaped chars) : Kept escaped char := by
  rcases mem_encodeChars member with ⟨_, kept⟩ | escape
  · exact kept
  · have found : char ∈ "%0123456789ABCDEF".toList := List.contains_iff_mem.mp escape
    refine ⟨ascii_of_isEscapeChar escape, ?_⟩
    simpa using List.all_eq_true.mp keeps char found

/-! ## Reading -/

private theorem decode_cons_of_ne {byte : UInt8} (different : byte ≠ 37) (rest : Bytes) :
    decode (byte :: rest) = byte :: decode rest := by
  rw [decode]
  intro high low remaining same
  exact absurd same different

theorem decode_append {front : Bytes} (absent : ∀ byte ∈ front, byte ≠ 37) (rest : Bytes) :
    decode (front ++ rest) = front ++ decode rest := by
  induction front with
  | nil => rfl
  | cons byte front ih =>
      rw [List.cons_append, decode_cons_of_ne (absent byte List.mem_cons_self),
        ih fun other member => absent other (List.mem_cons_of_mem _ member), List.cons_append]

theorem decode_eq_self {bytes : Bytes} (absent : ∀ byte ∈ bytes, byte ≠ 37) :
    decode bytes = bytes := by
  simpa [decode] using decode_append absent []

private theorem hexValue?_upperHexDigit {value : Nat} (small : value < 16) :
    hexValue? (upperHexDigit value).toUInt8 = some value :=
  (by decide : ∀ value < 16, hexValue? (upperHexDigit value).toUInt8 = some value)
    value small

private theorem decode_escapeByte (byte : UInt8) (rest : Bytes) :
    decode ((escapeByte byte).map Char.toUInt8 ++ rest) = byte :: decode rest := by
  have bound : byte.toNat < 256 := byte.toNat_lt
  have high : hexValue? (upperHexDigit (byte.toNat / 16)).toUInt8 = some (byte.toNat / 16) :=
    hexValue?_upperHexDigit (by omega)
  have low : hexValue? (upperHexDigit (byte.toNat % 16)).toUInt8 = some (byte.toNat % 16) :=
    hexValue?_upperHexDigit (by omega)
  have whole : byte.toNat / 16 * 16 + byte.toNat % 16 = byte.toNat := by omega
  change decode (37 :: _ :: _ :: rest) = _
  rw [decode, high, low]
  simp [whole]

private theorem decode_flatMap_escapeByte (bytes rest : Bytes) :
    decode ((bytes.flatMap escapeByte).map Char.toUInt8 ++ rest) = bytes ++ decode rest := by
  induction bytes with
  | nil => rfl
  | cons byte bytes ih =>
      rw [List.flatMap_cons, List.map_append, List.append_assoc, decode_escapeByte, ih]
      rfl

theorem toUInt8_ne_percent {char : Char} (ascii : char.toNat < 128) (different : char ≠ '%') :
    char.toUInt8 ≠ 37 := by
  intro same
  have codes : char.toNat = '%'.toNat := by
    rw [← Text.toNat_toUInt8 ascii, same]
    rfl
  exact different (Char.toNat_inj.mp codes)

private theorem decode_encodeChar {escaped : EscapeSet} (percent : escaped '%' = true) (char : Char)
    (rest : Bytes) :
    decode ((encodeChar escaped char).map Char.toUInt8 ++ rest) =
      String.utf8EncodeChar char ++ decode rest := by
  by_cases kept : Kept escaped char
  · have different : char ≠ '%' := by
      intro same
      subst same
      cases percent.symm.trans kept.2
    rw [encodeChar_of_kept kept, Text.utf8EncodeChar_ascii kept.1]
    exact decode_cons_of_ne (toUInt8_ne_percent kept.1 different) rest
  · rw [encodeChar_of_not_kept kept, decode_flatMap_escapeByte]

/-- Reading takes back what writing has done. -/
theorem decode_encodeChars {escaped : EscapeSet} (percent : escaped '%' = true)
    (chars : List Char) :
    decode ((encodeChars escaped chars).flatMap String.utf8EncodeChar) =
      chars.flatMap String.utf8EncodeChar := by
  rw [Text.flatMap_utf8EncodeChar_ascii fun _ => ascii_of_mem_encodeChars]
  induction chars with
  | nil => rfl
  | cons char chars ih =>
      rw [encodeChars] at ih ⊢
      rw [List.flatMap_cons, List.map_append, decode_encodeChar percent, ih, List.flatMap_cons]

theorem decode_utf8_encode {escaped : EscapeSet} (percent : escaped '%' = true) (text : String) :
    decode (utf8 (encode escaped text)) = utf8 text := by
  rw [encode, utf8_ofList, decode_encodeChars percent, utf8]

end DocumentClient.Percent
