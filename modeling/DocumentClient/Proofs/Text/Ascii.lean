import DocumentClient.Text.Utf8

/-!
# ASCII texts

A fact about all characters below 128 is a check of each of them. UTF-8 writes such a character as
the one byte of its number, reads it back, and keeps any two texts apart.
-/

set_option autoImplicit false

namespace DocumentClient.Text

theorem ascii_all (holds : Char → Bool)
    (checked : (List.range 128).all (fun code => holds (Char.ofNat code)) = true)
    {char : Char} (ascii : char.toNat < 128) : holds char = true := by
  have found := List.all_eq_true.mp checked char.toNat (List.mem_range.mpr ascii)
  rwa [Char.ofNat_toNat] at found

theorem ascii_of_isAlphanum {char : Char} (letterOrDigit : char.isAlphanum = true) :
    char.toNat < 128 := by
  delta Char.isAlphanum Char.isAlpha Char.isUpper Char.isLower Char.isDigit at letterOrDigit
  simp only [Bool.or_eq_true, Bool.and_eq_true, decide_eq_true_eq, ge_iff_le,
    UInt32.le_iff_toNat_le] at letterOrDigit
  change ((65 ≤ char.toNat ∧ char.toNat ≤ 90) ∨ 97 ≤ char.toNat ∧ char.toNat ≤ 122) ∨
    48 ≤ char.toNat ∧ char.toNat ≤ 57 at letterOrDigit
  omega

theorem toNat_toUInt8 {char : Char} (ascii : char.toNat < 128) :
    char.toUInt8.toNat = char.toNat := by
  rw [Char.toUInt8, UInt32.toNat_toUInt8]
  exact Nat.mod_eq_of_lt (Nat.lt_trans ascii (by decide))

theorem ofNat_toUInt8 {char : Char} (ascii : char.toNat < 128) :
    Char.ofNat char.toUInt8.toNat = char := by
  rw [toNat_toUInt8 ascii, Char.ofNat_toNat]

theorem utf8EncodeChar_ascii {char : Char} (ascii : char.toNat < 128) :
    String.utf8EncodeChar char = [char.toUInt8] := by
  have narrow : char.utf8Size = 1 := by
    rw [Char.utf8Size_eq_one_iff, UInt32.le_iff_toNat_le]
    exact Nat.le_of_lt_succ ascii
  rw [String.utf8EncodeChar_eq_singleton narrow]
  rfl

theorem flatMap_utf8EncodeChar_ascii {chars : List Char}
    (ascii : ∀ char ∈ chars, char.toNat < 128) :
    chars.flatMap String.utf8EncodeChar = chars.map Char.toUInt8 := by
  induction chars with
  | nil => rfl
  | cons char chars ih =>
      rw [List.flatMap_cons, utf8EncodeChar_ascii (ascii char List.mem_cons_self),
        ih fun other member => ascii other (List.mem_cons_of_mem _ member)]
      rfl

end DocumentClient.Text

namespace DocumentClient

@[simp] theorem utf8_ofList (chars : List Char) :
    utf8 (String.ofList chars) = chars.flatMap String.utf8EncodeChar := by
  simp [utf8]

theorem utf8_append (first second : String) :
    utf8 (first ++ second) = utf8 first ++ utf8 second := by
  simp [utf8]

theorem utf8_inj {first second : String} : utf8 first = utf8 second ↔ first = second := by
  constructor
  · intro same
    rw [← String.toByteArray_inj, ← String.ofList_toList (s := first),
      ← String.ofList_toList (s := second), String.toByteArray_ofList, String.toByteArray_ofList]
    exact congrArg List.toByteArray same
  · intro same
    rw [same]

namespace Utf8

theorem front_toUInt8 {char : Char} (ascii : char.toNat < 128) (rest : Bytes) :
    front (char.toUInt8 :: rest) = .char char 1 rest := by
  have narrow : char.toUInt8 < 0x80 := by
    rw [UInt8.lt_iff_toNat_lt, Text.toNat_toUInt8 ascii]
    exact ascii
  simp [front, narrow, Text.ofNat_toUInt8 ascii]

theorem charsFrom_ascii {chars : List Char} (ascii : ∀ char ∈ chars, char.toNat < 128)
    (offset : Nat) : charsFrom (chars.map Char.toUInt8) offset = .ok chars := by
  induction chars generalizing offset with
  | nil => rw [charsFrom]; rfl
  | cons char chars ih =>
      have remaining := ih (fun other member => ascii other (List.mem_cons_of_mem _ member))
        (offset + 1)
      have found := front_toUInt8 (ascii char List.mem_cons_self) (chars.map Char.toUInt8)
      rw [List.map_cons, charsFrom]
      split <;> simp_all

end Utf8

end DocumentClient
