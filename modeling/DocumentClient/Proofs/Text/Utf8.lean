import DocumentClient.Proofs.Text.Ascii

/-!
# UTF-8 read back

What is written for a character is read as that character, whatever stands behind it. Main
statement: `decode_utf8`, the bytes of a text are read as that text.
-/

set_option autoImplicit false

namespace DocumentClient.Utf8

private theorem toNat_ofNat {number : Nat} (small : number < 256) :
    (UInt8.ofNat number).toNat = number :=
  UInt8.toNat_ofNat_of_lt small

private theorem isContinuation_ofNat {number : Nat} (low : 0x80 ≤ number) (high : number ≤ 0xBF) :
    isContinuation (UInt8.ofNat number) = true := by
  have same : (UInt8.ofNat number).toNat = number := toNat_ofNat (by omega)
  simp [isContinuation, UInt8.le_iff_toNat_le, same, low, high]

/-- The second byte of a sequence that is not overlong, no surrogate and not too great. -/
theorem isSecond_ofNat {lead second : Nat} (known : lead ≤ 0xF4) (low : 0x80 ≤ second)
    (high : second ≤ 0xBF) (overlong : lead = 0xE0 → 0xA0 ≤ second)
    (surrogate : lead = 0xED → second ≤ 0x9F) (short : lead = 0xF0 → 0x90 ≤ second)
    (great : lead = 0xF4 → second ≤ 0x8F) :
    isSecond (UInt8.ofNat lead) (UInt8.ofNat second) = true := by
  have leads : (UInt8.ofNat lead).toNat = lead := toNat_ofNat (by omega)
  have same : (UInt8.ofNat second).toNat = second := toNat_ofNat (by omega)
  simp only [isSecond, isContinuation_ofNat low high, ← UInt8.toNat_inj, leads,
    UInt8.le_iff_toNat_le, same, Bool.true_and]
  change (if lead = 0xE0 then decide (0xA0 ≤ second) else if lead = 0xED then decide (second ≤ 0x9F)
    else if lead = 0xF0 then decide (0x90 ≤ second) else if lead = 0xF4 then decide (second ≤ 0x8F)
    else true) = true
  split
  · simpa using overlong ‹_›
  split
  · simpa using surrogate ‹_›
  split
  · simpa using short ‹_›
  split
  · simpa using great ‹_›
  · rfl

/-! ## Sequences by their length -/

section

variable {lead second third fourth : Nat} (rest : Bytes)

private theorem front_of_two (low : 0xC2 ≤ lead) (high : lead < 0xE0)
    (secondLow : 0x80 ≤ second) (secondHigh : second ≤ 0xBF) :
    front (UInt8.ofNat lead :: UInt8.ofNat second :: rest) =
      .char (Char.ofNat (lead % 32 * 64 + second % 64)) 2 rest := by
  have leads : (UInt8.ofNat lead).toNat = lead := toNat_ofNat (by omega)
  have follows : isSecond (UInt8.ofNat lead) (UInt8.ofNat second) = true :=
    isSecond_ofNat (by omega) secondLow secondHigh (by omega) (by omega) (by omega) (by omega)
  have value : payload (UInt8.ofNat lead) 5 [UInt8.ofNat second] = lead % 32 * 64 + second % 64 := by
    simp [payload, leads, toNat_ofNat (show second < 256 by omega)]
  simp [front, follows, value, UInt8.lt_iff_toNat_lt, leads, high, Nat.not_lt.mpr low,
    show ¬ lead < 128 by omega, show ¬ 244 < lead by omega]

private theorem front_of_three (low : 0xE0 ≤ lead) (high : lead < 0xF0)
    (secondLow : 0x80 ≤ second) (secondHigh : second ≤ 0xBF)
    (overlong : lead = 0xE0 → 0xA0 ≤ second) (surrogate : lead = 0xED → second ≤ 0x9F)
    (thirdLow : 0x80 ≤ third) (thirdHigh : third ≤ 0xBF) :
    front (UInt8.ofNat lead :: UInt8.ofNat second :: UInt8.ofNat third :: rest) =
      .char (Char.ofNat ((lead % 16 * 64 + second % 64) * 64 + third % 64)) 3 rest := by
  have leads : (UInt8.ofNat lead).toNat = lead := toNat_ofNat (by omega)
  have follows : isSecond (UInt8.ofNat lead) (UInt8.ofNat second) = true :=
    isSecond_ofNat (by omega) secondLow secondHigh overlong surrogate (by omega) (by omega)
  have value : payload (UInt8.ofNat lead) 4 [UInt8.ofNat second, UInt8.ofNat third] =
      (lead % 16 * 64 + second % 64) * 64 + third % 64 := by
    simp [payload, leads, toNat_ofNat (show second < 256 by omega),
      toNat_ofNat (show third < 256 by omega)]
  simp [front, follows, value, isContinuation_ofNat thirdLow thirdHigh, UInt8.lt_iff_toNat_lt, leads,
    high, Nat.not_lt.mpr low, show ¬ lead < 128 by omega, show ¬ lead < 194 by omega,
    show ¬ 244 < lead by omega]

private theorem front_of_four (low : 0xF0 ≤ lead) (high : lead ≤ 0xF4)
    (secondLow : 0x80 ≤ second) (secondHigh : second ≤ 0xBF)
    (short : lead = 0xF0 → 0x90 ≤ second) (great : lead = 0xF4 → second ≤ 0x8F)
    (thirdLow : 0x80 ≤ third) (thirdHigh : third ≤ 0xBF)
    (fourthLow : 0x80 ≤ fourth) (fourthHigh : fourth ≤ 0xBF) :
    front (UInt8.ofNat lead :: UInt8.ofNat second :: UInt8.ofNat third :: UInt8.ofNat fourth ::
        rest) =
      .char (Char.ofNat (((lead % 8 * 64 + second % 64) * 64 + third % 64) * 64 + fourth % 64)) 4
        rest := by
  have leads : (UInt8.ofNat lead).toNat = lead := toNat_ofNat (by omega)
  have follows : isSecond (UInt8.ofNat lead) (UInt8.ofNat second) = true :=
    isSecond_ofNat (by omega) secondLow secondHigh (by omega) (by omega) short great
  have value :
      payload (UInt8.ofNat lead) 3 [UInt8.ofNat second, UInt8.ofNat third, UInt8.ofNat fourth] =
        ((lead % 8 * 64 + second % 64) * 64 + third % 64) * 64 + fourth % 64 := by
    simp [payload, leads, toNat_ofNat (show second < 256 by omega),
      toNat_ofNat (show third < 256 by omega), toNat_ofNat (show fourth < 256 by omega)]
  simp [front, follows, value, isContinuation_ofNat thirdLow thirdHigh,
    isContinuation_ofNat fourthLow fourthHigh, UInt8.lt_iff_toNat_lt, leads, Nat.not_lt.mpr low,
    Nat.not_lt.mpr high, show ¬ lead < 128 by omega, show ¬ lead < 194 by omega,
    show ¬ lead < 224 by omega]

end

/-! ## Texts -/

private theorem front_utf8EncodeChar (char : Char) (rest : Bytes) :
    ∃ width, front (String.utf8EncodeChar char ++ rest) = .char char width rest := by
  have valid : char.toNat < 0xD800 ∨ 0xDFFF < char.toNat ∧ char.toNat < 0x110000 := char.valid
  have back {number : Nat} (same : number = char.toNat) : Char.ofNat number = char := by
    rw [same, Char.ofNat_toNat]
  have number : char.val.toNat = char.toNat := rfl
  by_cases ascii : char.toNat < 0x80
  · rw [Text.utf8EncodeChar_ascii ascii]
    exact ⟨1, front_toUInt8 ascii rest⟩
  unfold String.utf8EncodeChar
  simp only [number]
  rw [if_neg (show ¬ char.toNat ≤ 127 by omega)]
  split
  · refine ⟨2, ?_⟩
    rw [List.cons_append, List.singleton_append, front_of_two rest (by omega) (by omega) (by omega)
      (by omega), back (by omega)]
  split
  · refine ⟨3, ?_⟩
    rw [List.cons_append, List.cons_append, List.singleton_append, front_of_three rest (by omega)
      (by omega) (by omega) (by omega) (by omega) (by omega) (by omega) (by omega), back (by omega)]
  · refine ⟨4, ?_⟩
    rw [List.cons_append, List.cons_append, List.cons_append, List.singleton_append,
      front_of_four rest (by omega) (by omega) (by omega) (by omega) (by omega) (by omega) (by omega)
        (by omega) (by omega) (by omega), back (by omega)]

/-- Outside ASCII all bytes are outside ASCII. -/
theorem le_of_mem_utf8EncodeChar {char : Char} (wide : 0x80 ≤ char.toNat) {byte : UInt8}
    (member : byte ∈ String.utf8EncodeChar char) : 0x80 ≤ byte := by
  have valid : char.toNat < 0xD800 ∨ 0xDFFF < char.toNat ∧ char.toNat < 0x110000 := char.valid
  have number : char.val.toNat = char.toNat := rfl
  have high {code : Nat} (low : 0x80 ≤ code) (small : code < 256) : 0x80 ≤ UInt8.ofNat code := by
    rw [UInt8.le_iff_toNat_le, toNat_ofNat small]
    exact low
  unfold String.utf8EncodeChar at member
  simp only [number] at member
  rw [if_neg (show ¬ char.toNat ≤ 127 by omega)] at member
  split at member
  · simp only [List.mem_cons, List.not_mem_nil, or_false] at member
    obtain rfl | rfl := member <;> exact high (by omega) (by omega)
  split at member
  · simp only [List.mem_cons, List.not_mem_nil, or_false] at member
    obtain rfl | rfl | rfl := member <;> exact high (by omega) (by omega)
  · simp only [List.mem_cons, List.not_mem_nil, or_false] at member
    obtain rfl | rfl | rfl | rfl := member <;> exact high (by omega) (by omega)

private theorem charsFrom_flatMap (chars : List Char) (offset : Nat) :
    charsFrom (chars.flatMap String.utf8EncodeChar) offset = .ok chars := by
  induction chars generalizing offset with
  | nil =>
      rw [charsFrom]
      rfl
  | cons char chars ih =>
      obtain ⟨width, found⟩ := front_utf8EncodeChar char (chars.flatMap String.utf8EncodeChar)
      have remaining := ih (offset + width)
      rw [List.flatMap_cons, charsFrom]
      split <;> simp_all

/-- A text is what its bytes are read as. -/
theorem decode_utf8 (text : String) : decode (utf8 text) = .ok text := by
  rw [decode, utf8, charsFrom_flatMap]
  exact congrArg Except.ok (String.ofList_toList)

end DocumentClient.Utf8
