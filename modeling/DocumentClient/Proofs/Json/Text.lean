import DocumentClient.Proofs.Json.Grammar
import DocumentClient.Proofs.Json.Locality

/-!
# Reading words and texts

What is read as a word or as a text is one by the grammar, also where a text is passed over, and
nothing behind it is looked at.
-/

set_option autoImplicit false

namespace DocumentClient.Json

open Reader

theorem byte_all (holds : UInt8 → Bool)
    (checked : (List.range 256).all (fun number => holds (UInt8.ofNat number)) = true)
    (byte : UInt8) : holds byte = true := by
  have found := List.all_eq_true.mp checked byte.toNat (List.mem_range.mpr byte.toNat_lt)
  rwa [UInt8.ofNat_toNat] at found

/-! ## Words -/

private theorem blind_takeLiteral (chars : List Char) : (takeLiteral chars).Blind := by
  induction chars with
  | nil => exact blind_pure ()
  | cons char chars ih =>
      unfold takeLiteral
      refine (firm_takeByte _).blind.bind fun byte => ?_
      split
      · exact ih
      · exact (fails_failHere _).blind

theorem firm_takeLiteral (char : Char) (chars : List Char) : (takeLiteral (char :: chars)).Firm := by
  unfold takeLiteral
  refine (firm_takeByte _).bind_blind fun byte => ?_
  split
  · exact blind_takeLiteral chars
  · exact (fails_failHere _).blind

theorem rest_takeByte {atEnd : Cause} {cursor behind : Cursor} {byte : UInt8}
    (found : (takeByte atEnd).run cursor = .ok (byte, behind)) :
    cursor.rest = byte :: behind.rest := by
  unfold takeByte at found
  rw [run_bind, run_peek] at found
  simp only at found
  split at found
  · cases found
  · rename_i head
    cases found
    obtain ⟨rest, here⟩ := List.head?_eq_some_iff.mp head
    rw [Cursor.advance, here]

theorem rest_takeLiteral {chars : List Char} {cursor behind : Cursor}
    (found : (takeLiteral chars).run cursor = .ok ((), behind)) :
    cursor.rest = chars.map code ++ behind.rest := by
  induction chars generalizing cursor with
  | nil =>
      cases found
      rfl
  | cons char chars ih =>
      unfold takeLiteral at found
      obtain ⟨byte, middle, taken, found⟩ := run_bind_eq_ok.mp found
      split at found
      · rename_i same
        rw [rest_takeByte taken, same, ih found]
        rfl
      · cases found

/-! ## Escapes -/

theorem mem_escapeLetters_of_escapedChar? {byte : UInt8} (known : (escapedChar? byte).isSome) :
    byte ∈ escapeLetters := by
  have all := byte_all (fun byte => !(escapedChar? byte).isSome || escapeLetters.contains byte)
    (by decide +kernel) byte
  simpa [known] using all

private theorem mem_hexDigits_of_hexDigit? {byte : UInt8} {value : Nat}
    (known : hexDigit? byte = some value) :
    byte ∈ hexDigits := by
  have all := byte_all (fun byte => !(hexDigit? byte).isSome || hexDigits.contains byte)
    (by decide +kernel) byte
  simpa [known] using all

theorem run_takeHex_of_four (a b c d : UInt8) (rest : Bytes) (position : Position) :
    takeHex.run ⟨a :: b :: c :: d :: rest, position⟩ =
      (match hexDigit? a, hexDigit? b, hexDigit? c, hexDigit? d with
        | some a, some b, some c, some d => pure (((a * 16 + b) * 16 + c) * 16 + d)
        | _, _, _, _ => failHere .escape : Reader Nat).run
        ((((⟨a :: b :: c :: d :: rest, position⟩ : Cursor).advance).advance).advance).advance := rfl

theorem rest_takeHex {cursor behind : Cursor} {value : Nat}
    (found : takeHex.run cursor = .ok (value, behind)) :
    ∃ a b c d, cursor.rest = a :: b :: c :: d :: behind.rest ∧
      (∀ digit ∈ [a, b, c, d], digit ∈ hexDigits) ∧
      ∀ rest position, ∃ last, takeHex.run ⟨a :: b :: c :: d :: rest, position⟩ =
        .ok (value, ⟨rest, last⟩) := by
  obtain ⟨bytes, position⟩ := cursor
  match bytes with
  | [] | [_] | [_, _] | [_, _, _] => cases found
  | a :: b :: c :: d :: rest =>
      rw [run_takeHex_of_four] at found
      split at found
      · rename_i _ _ _ _ first second third fourth
        cases found
        refine ⟨a, b, c, d, rfl, ?_, fun rest position => ?_⟩
        · simp [mem_hexDigits_of_hexDigit? first, mem_hexDigits_of_hexDigit? second,
            mem_hexDigits_of_hexDigit? third, mem_hexDigits_of_hexDigit? fourth]
        · rw [run_takeHex_of_four, first, second, third, fourth]
          exact ⟨_, rfl⟩
      · cases found

theorem firm_takeHex : takeHex.Firm := by
  intro cursor behind value found
  obtain ⟨a, b, c, d, split, _, takes⟩ := rest_takeHex found
  exact ⟨[a, b, c, d], by simp, split, fun next rest position _ => takes rest position⟩

private theorem firm_takePairByte (expected : Char) : (takePairByte expected).Firm := by
  unfold takePairByte
  refine (firm_takeByte _).bind_blind fun byte => ?_
  split
  · exact (fails_failHere _).blind
  · exact blind_pure ()

private theorem rest_takePairByte {expected : Char} {cursor behind : Cursor}
    (found : (takePairByte expected).run cursor = .ok ((), behind)) :
    cursor.rest = code expected :: behind.rest := by
  unfold takePairByte at found
  obtain ⟨byte, middle, taken, found⟩ := run_bind_eq_ok.mp found
  split at found
  · cases found
  · rename_i same
    cases found
    rw [rest_takeByte taken, Decidable.not_not.mp same]

private theorem firm_takeNumericEscape : takeNumericEscape.Firm := by
  unfold takeNumericEscape
  refine firm_takeHex.bind_blind fun first => ?_
  split
  · exact (fails_failHere _).blind
  split
  · refine (firm_takePairByte _).blind.bind fun _ => (firm_takePairByte _).blind.bind fun _ =>
      firm_takeHex.blind.bind fun second => ?_
    split
    · exact (fails_failHere _).blind
    · exact blind_pure _
  · exact blind_pure _

private theorem firm_takeEscape : takeEscape.Firm := by
  unfold takeEscape
  refine (firm_takeByte _).bind_blind fun byte => ?_
  split
  · exact blind_pure _
  split
  · exact firm_takeNumericEscape.blind
  · exact (fails_failHere _).blind

theorem Quoted.of_takeNumericEscape {cursor behind : Cursor} {char : Char} {rest : Bytes}
    (found : takeNumericEscape.run cursor = .ok (char, behind)) (quoted : Quoted behind.rest rest) :
    Quoted (code '\\' :: code 'u' :: cursor.rest) rest := by
  unfold takeNumericEscape at found
  obtain ⟨first, middle, taken, found⟩ := run_bind_eq_ok.mp found
  obtain ⟨a, b, c, d, split, digits, _⟩ := rest_takeHex taken
  rw [split]
  refine .number digits ?_
  split at found
  · cases found
  split at found
  · obtain ⟨_, _, backslash, found⟩ := run_bind_eq_ok.mp found
    obtain ⟨_, _, letter, found⟩ := run_bind_eq_ok.mp found
    obtain ⟨second, last, taken, found⟩ := run_bind_eq_ok.mp found
    obtain ⟨a, b, c, d, split, digits, _⟩ := rest_takeHex taken
    rw [rest_takePairByte backslash, rest_takePairByte letter, split]
    refine .number digits ?_
    split at found
    · cases found
    · obtain ⟨_, rfl⟩ := run_pure_eq_ok.mp found
      exact quoted
  · obtain ⟨_, rfl⟩ := run_pure_eq_ok.mp found
    exact quoted

theorem Quoted.of_takeEscape {cursor behind : Cursor} {char : Char} {rest : Bytes}
    (found : takeEscape.run cursor = .ok (char, behind)) (quoted : Quoted behind.rest rest) :
    Quoted (code '\\' :: cursor.rest) rest := by
  unfold takeEscape at found
  obtain ⟨byte, middle, taken, found⟩ := run_bind_eq_ok.mp found
  rw [rest_takeByte taken]
  split at found
  · rename_i known
    cases found
    exact .letter (mem_escapeLetters_of_escapedChar? (by simp [known])) quoted
  split at found
  · rename_i letter
    rw [letter]
    exact quoted.of_takeNumericEscape found
  · cases found

/-! ## Texts -/

private theorem contentFrom_of_quote {cursor : Cursor} (head : cursor.head? = some (code '"')) :
    contentFrom cursor = .ok ([], cursor) := by
  rw [contentFrom]
  split
  · rename_i none
    cases head.symm.trans none
  · rename_i byte same
    cases head.symm.trans same
    exact if_pos rfl

private theorem contentFrom_of_escape {cursor next : Cursor} {char : Char}
    (head : cursor.head? = some (code '\\')) (escape : takeEscape.run cursor.advance = .ok (char, next)) :
    contentFrom cursor = (contentFrom next).map fun (bytes, behind) =>
      (String.utf8EncodeChar char ++ bytes, behind) := by
  rw [contentFrom]
  split
  · rename_i none
    cases head.symm.trans none
  · rename_i byte same
    cases head.symm.trans same
    rw [if_neg (by decide), if_pos rfl]
    split
    · rename_i failed
      cases escape.symm.trans failed
    · rename_i also
      cases escape.symm.trans also
      rfl

private theorem contentFrom_of_plain {cursor : Cursor} {byte : UInt8}
    (head : cursor.head? = some byte)
    (notQuote : byte ≠ code '"') (notBackslash : byte ≠ code '\\') (shown : 0x20 ≤ byte) :
    contentFrom cursor = (contentFrom cursor.advance).map fun (bytes, behind) =>
      (byte :: bytes, behind) := by
  rw [contentFrom]
  split
  · rename_i none
    cases head.symm.trans none
  · rename_i byte same
    cases head.symm.trans same
    rw [if_neg notQuote, if_neg notBackslash, if_neg (UInt8.not_lt.mpr shown)]

theorem rest_of_head? {cursor : Cursor} {byte : UInt8} (head : cursor.head? = some byte) :
    cursor.rest = byte :: cursor.advance.rest := by
  obtain ⟨rest, here⟩ := List.head?_eq_some_iff.mp head
  rw [Cursor.advance, here]

theorem takes_content_of_quote : takeContent.Takes [] [] (some (code '"')) :=
  fun _ position head => ⟨position, contentFrom_of_quote head⟩

theorem Reader.Takes.content_of_escape {letters front bytes : Bytes} {char : Char} {next : Option UInt8}
    (escapes : ∀ next, takeEscape.Takes letters char next)
    (takes : takeContent.Takes front bytes next) :
    takeContent.Takes (code '\\' :: (letters ++ front)) (String.utf8EncodeChar char ++ bytes)
      next := by
  intro rest position head
  obtain ⟨middle, escape⟩ := escapes _ (front ++ rest) (Cursor.after position (code '\\')) rfl
  obtain ⟨behind, done⟩ := takes rest middle head
  replace done : contentFrom ⟨front ++ rest, middle⟩ = .ok (bytes, ⟨rest, behind⟩) := done
  let cursor : Cursor := ⟨code '\\' :: (letters ++ (front ++ rest)), position⟩
  have step := contentFrom_of_escape (show cursor.head? = some (code '\\') from rfl) escape
  rw [done] at step
  refine ⟨behind, ?_⟩
  rw [List.cons_append, List.append_assoc]
  exact step

theorem Reader.Takes.content_of_plain {front bytes : Bytes} {byte : UInt8} {next : Option UInt8}
    (notQuote : byte ≠ code '"') (notBackslash : byte ≠ code '\\') (shown : 0x20 ≤ byte)
    (takes : takeContent.Takes front bytes next) :
    takeContent.Takes (byte :: front) (byte :: bytes) next := by
  intro rest position head
  obtain ⟨behind, done⟩ := takes rest (Cursor.after position byte) head
  replace done : contentFrom ⟨front ++ rest, Cursor.after position byte⟩ =
      .ok (bytes, ⟨rest, behind⟩) := done
  let cursor : Cursor := ⟨byte :: (front ++ rest), position⟩
  have step := contentFrom_of_plain (show cursor.head? = some byte from rfl) notQuote notBackslash
    shown
  have moved : cursor.advance = ⟨front ++ rest, Cursor.after position byte⟩ := rfl
  rw [moved, done] at step
  exact ⟨behind, step⟩

/-- Inside a text reading goes on to the closing quote, which is left. -/
theorem quoted_of_takeContent {cursor behind : Cursor} {bytes : Bytes}
    (found : takeContent.run cursor = .ok (bytes, behind)) :
    ∃ front rest, behind.rest = code '"' :: rest ∧ Quoted cursor.rest rest ∧
      cursor.rest = front ++ behind.rest ∧ takeContent.Takes front bytes (some (code '"')) := by
  replace found : contentFrom cursor = .ok (bytes, behind) := found
  fun_induction contentFrom cursor generalizing bytes behind with
  | case1 => cases found
  | case2 cursor head =>
      cases found
      exact ⟨[], _, rest_of_head? head, rest_of_head? head ▸ .close, rfl, takes_content_of_quote⟩
  | case3 => cases found
  | case4 cursor char next escape head _ ih =>
      obtain ⟨⟨more, last⟩, taken, same⟩ := map_eq_ok found
      cases same
      obtain ⟨front, rest, closes, quoted, split, takes⟩ := ih taken
      obtain ⟨letters, _, before, escapes⟩ := firm_takeEscape escape
      refine ⟨_, rest, closes, ?_, ?_, takes.content_of_escape escapes⟩
      · exact rest_of_head? head ▸ quoted.of_takeEscape escape
      · rw [rest_of_head? head, before, split]
        simp
  | case5 => cases found
  | case6 cursor byte head notQuote notBackslash shown ih =>
      obtain ⟨⟨more, last⟩, taken, same⟩ := map_eq_ok found
      cases same
      obtain ⟨front, rest, closes, quoted, split, takes⟩ := ih taken
      have shown : 0x20 ≤ byte := UInt8.not_lt.mp shown
      refine ⟨_, rest, closes, ?_, ?_, takes.content_of_plain notQuote notBackslash shown⟩
      · exact rest_of_head? head ▸ .plain notQuote notBackslash shown quoted
      · rw [rest_of_head? head, split]
        rfl

theorem Reader.Takes.text {front bytes : Bytes} {text : String}
    (takes : takeContent.Takes front bytes (some (code '"'))) (decodes : Utf8.decode bytes = .ok text)
    (next : Option UInt8) : takeText.Takes (front ++ [code '"']) text next := by
  unfold takeText
  refine Takes.bind takes ?_
  rw [decodes]
  exact (takes_advance _ _).bind (takes_pure text next)

theorem quoted_of_takeText {cursor behind : Cursor} {text : String}
    (found : takeText.run cursor = .ok (text, behind)) :
    Quoted cursor.rest behind.rest ∧ ∃ front, front ≠ [] ∧ cursor.rest = front ++ behind.rest ∧
      ∀ next, takeText.Takes front text next := by
  have stages := found
  unfold takeText at stages
  obtain ⟨bytes, middle, taken, done⟩ := run_bind_eq_ok.mp stages
  obtain ⟨front, rest, closes, quoted, split, takes⟩ := quoted_of_takeContent taken
  cases decodes : Utf8.decode bytes with
  | error fault =>
      rw [decodes] at done
      cases done
  | ok decoded =>
      rw [decodes] at done
      cases done
      have left : middle.advance.rest = rest := by rw [Cursor.advance, closes]
      rw [left]
      exact ⟨quoted, front ++ [code '"'], by simp, by rw [split, closes]; simp, takes.text decodes⟩

theorem firm_takeText : takeText.Firm :=
  fun _ _ _ found => (quoted_of_takeText found).2

end DocumentClient.Json
