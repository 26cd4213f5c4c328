import DocumentClient.Proofs.Json.Number

/-!
# Passing over values

What is passed over is a value by the grammar. The lists and objects that are still open are a
stack, and `Closes` says of a stack what it takes to get to the end of the outermost one.
-/

set_option autoImplicit false

namespace DocumentClient.Json

open Reader

theorem rest_skipBlanks {cursor behind : Cursor}
    (found : skipBlanks.run cursor = .ok ((), behind)) : behind.rest = afterBlanks cursor.rest := by
  cases found
  exact rest_skipWhile isBlank cursor

/-- Behind blanks the next byte tells how reading goes on. -/
theorem run_blanks_peek {α : Type} {continuation : Option UInt8 → Reader α} {cursor : Cursor}
    {result : α × Cursor}
    (found : (skipBlanks >>= fun _ => peek >>= continuation).run cursor = .ok result) :
    ∃ start : Cursor, start.rest = afterBlanks cursor.rest ∧
      (continuation start.head?).run start = .ok result :=
  ⟨cursor.skipWhile isBlank, rest_skipWhile isBlank cursor, found⟩

theorem skipWhile_isBlank {cursor : Cursor} {byte : UInt8} {rest : Bytes}
    (begins : afterBlanks cursor.rest = byte :: rest) :
    (cursor.skipWhile isBlank).head? = some byte ∧
      (cursor.skipWhile isBlank).advance.rest = rest := by
  have left : (cursor.skipWhile isBlank).rest = byte :: rest :=
    (rest_skipWhile isBlank cursor).trans begins
  have head : (cursor.skipWhile isBlank).head? = some byte := congrArg List.head? left
  exact ⟨head, (List.cons.inj ((rest_of_head? head).symm.trans left)).2⟩

theorem run_of_afterBlanks {α : Type} (continuation : Option UInt8 → Reader α) {cursor : Cursor}
    {byte : UInt8} {rest : Bytes} (begins : afterBlanks cursor.rest = byte :: rest) :
    (skipBlanks >>= fun _ => peek >>= continuation).run cursor =
      (continuation (some byte)).run (cursor.skipWhile isBlank) := by
  rw [← (skipWhile_isBlank begins).1]
  rfl

private theorem rest_skipDigits {cursor behind : Cursor}
    (found : (skipWhile isDigit).run cursor = .ok ((), behind)) :
    behind.rest = cursor.rest.dropWhile isDigit := by
  cases found
  exact rest_skipWhile isDigit cursor

/-! ## Numbers -/

/-- The digits of an exponent, behind its sign. -/
def skipPower : Reader Unit := do
  let first ← takeByte .number
  if isDigit first then skipWhile isDigit else failHere .number

/-- What stands behind the digits of a number, if an exponent is all that may. -/
def skipScale : Reader Unit := do
  if (← peek).any isExponentMark then skipExponent

private theorem skipExponent_eq :
    skipExponent = (do
      advance
      if (← peek).any isSign then
        advance
        skipPower
      else skipPower) :=
  rfl

private theorem skipFraction_eq :
    skipFraction = (do
      if (← peek) = some (code '.') then
        advance
        let first ← peek
        skipWhile isDigit
        if !first.any isDigit then failNext .number else skipScale
      else skipScale) :=
  rfl

private theorem local_skipPower : skipPower.Local :=
  (firm_takeByte _).isLocal.bind fun _ =>
    local_ite (local_skipWhile isDigit) (fails_failHere _).isLocal

private theorem local_skipExponent : skipExponent.Local := by
  rw [skipExponent_eq]
  exact local_advance.bind fun _ => local_peek.bind fun _ =>
    local_ite (local_advance.bind fun _ => local_skipPower) local_skipPower

private theorem digits_of_skipPower {cursor behind : Cursor}
    (found : skipPower.run cursor = .ok ((), behind)) : Digits cursor.rest behind.rest := by
  obtain ⟨first, start, taken, found⟩ := run_bind_eq_ok.mp found
  split at found
  · rename_i digit
    rw [rest_takeByte taken]
    refine ⟨digit, ?_⟩
    rw [List.dropWhile_cons_of_pos digit]
    exact rest_skipDigits found
  · cases found

private theorem exponent_of_skipExponent {cursor behind : Cursor}
    (marked : cursor.head?.any isExponentMark = true)
    (found : skipExponent.run cursor = .ok ((), behind)) : Exponent cursor.rest behind.rest := by
  obtain ⟨mark, head, marks⟩ := (Option.any_eq_true _ _).mp marked
  rw [skipExponent_eq] at found
  rw [rest_of_head? head]
  obtain ⟨_, _, moved, found⟩ := run_bind_eq_ok.mp found
  cases moved
  obtain ⟨_, _, moved, found⟩ := run_bind_eq_ok.mp found
  cases moved
  split at found
  · rename_i signed
    obtain ⟨_, _, moved, found⟩ := run_bind_eq_ok.mp found
    cases moved
    obtain ⟨sign, begins, signs⟩ := (Option.any_eq_true _ _).mp signed
    rw [rest_of_head? begins]
    exact .signed marks signs (digits_of_skipPower found)
  · rename_i unsigned
    exact .plain marks (Bool.eq_false_iff.mpr unsigned) (digits_of_skipPower found)

private theorem exponent_of_skipScale {cursor behind : Cursor}
    (found : skipScale.run cursor = .ok ((), behind)) : Exponent cursor.rest behind.rest := by
  obtain ⟨_, _, moved, found⟩ := run_bind_eq_ok.mp found
  cases moved
  split at found
  · rename_i marked
    exact exponent_of_skipExponent marked found
  · rename_i unmarked
    cases found
    exact .absent (Bool.eq_false_iff.mpr unmarked)

private theorem fraction_of_skipFraction {cursor behind : Cursor}
    (found : skipFraction.run cursor = .ok ((), behind)) :
    ∃ middle, Fraction cursor.rest middle ∧ Exponent middle behind.rest := by
  rw [skipFraction_eq] at found
  obtain ⟨_, _, moved, found⟩ := run_bind_eq_ok.mp found
  cases moved
  split at found
  · rename_i pointed
    obtain ⟨_, _, moved, found⟩ := run_bind_eq_ok.mp found
    cases moved
    obtain ⟨_, _, moved, found⟩ := run_bind_eq_ok.mp found
    cases moved
    obtain ⟨_, middle, skipped, found⟩ := run_bind_eq_ok.mp found
    split at found
    · cases found
    · rename_i some
      rw [rest_of_head? pointed]
      exact ⟨middle.rest, .present ⟨by simpa [Cursor.head?] using some, rest_skipDigits skipped⟩,
        exponent_of_skipScale found⟩
  · rename_i pointless
    exact ⟨cursor.rest, .absent pointless, exponent_of_skipScale found⟩

private theorem whole_of_skipUnsigned {cursor behind : Cursor}
    (found : skipUnsigned.run cursor = .ok ((), behind)) :
    ∃ first second, Whole cursor.rest first ∧ Fraction first second ∧
      Exponent second behind.rest := by
  unfold skipUnsigned at found
  obtain ⟨first, start, taken, found⟩ := run_bind_eq_ok.mp found
  rw [rest_takeByte taken]
  split at found
  · cases found
  rename_i digit
  split at found
  · rename_i zero
    subst zero
    obtain ⟨_, _, moved, found⟩ := run_bind_eq_ok.mp found
    cases moved
    split at found
    · cases found
    · rename_i stops
      obtain ⟨middle, grammar⟩ := fraction_of_skipFraction found
      exact ⟨start.rest, middle, .zero (Bool.eq_false_iff.mpr stops), grammar⟩
  · rename_i nonzero
    have digit : isDigit first = true := by simpa using digit
    obtain ⟨_, middle, skipped, found⟩ := run_bind_eq_ok.mp found
    obtain ⟨last, grammar⟩ := fraction_of_skipFraction found
    refine ⟨middle.rest, last, .digits nonzero ⟨digit, ?_⟩, grammar⟩
    rw [List.dropWhile_cons_of_pos digit]
    exact rest_skipDigits skipped

private theorem local_skipScale : skipScale.Local :=
  local_peek.bind fun _ => local_ite local_skipExponent (local_pure ())

private theorem local_skipFraction : skipFraction.Local := by
  rw [skipFraction_eq]
  exact local_peek.bind fun _ => local_ite (local_advance.bind fun _ => local_peek.bind fun _ =>
    (local_skipWhile isDigit).bind fun _ => local_ite (fails_failNext _).isLocal local_skipScale)
      local_skipScale

private theorem local_skipUnsigned : skipUnsigned.Local :=
  (firm_takeByte _).isLocal.bind fun _ => local_ite (fails_failHere _).isLocal
    (local_ite (local_peek.bind fun _ => local_ite (fails_failNext _).isLocal local_skipFraction)
      ((local_skipWhile isDigit).bind fun _ => local_skipFraction))

/-! ## Texts -/

private theorem firm_skipEscape : skipEscape.Firm := by
  unfold skipEscape
  refine (firm_takeByte _).bind_blind fun byte => ?_
  split
  · exact firm_takeHex.blind.bind fun _ => blind_pure ()
  split
  · exact (fails_failHere _).blind
  · exact blind_pure ()

theorem Quoted.of_skipEscape {cursor behind : Cursor} {rest : Bytes}
    (found : skipEscape.run cursor = .ok ((), behind)) (quoted : Quoted behind.rest rest) :
    Quoted (code '\\' :: cursor.rest) rest := by
  unfold skipEscape at found
  obtain ⟨byte, middle, taken, found⟩ := run_bind_eq_ok.mp found
  rw [rest_takeByte taken]
  split at found
  · rename_i letter
    obtain ⟨value, last, digits, found⟩ := run_bind_eq_ok.mp found
    obtain ⟨_, rfl⟩ := run_pure_eq_ok.mp found
    obtain ⟨a, b, c, d, split, known, _⟩ := rest_takeHex digits
    rw [letter, split]
    exact .number known quoted
  split at found
  · cases found
  · rename_i known
    cases found
    exact .letter (mem_escapeLetters_of_escapedChar? (by simpa [Option.isSome_iff_ne_none] using known)) quoted

private theorem textEndFrom_of_quote {cursor : Cursor} (head : cursor.head? = some (code '"')) :
    textEndFrom cursor = .ok ((), cursor.advance) := by
  rw [textEndFrom]
  split
  · rename_i none
    cases head.symm.trans none
  · rename_i byte same
    cases head.symm.trans same
    exact if_pos rfl

private theorem textEndFrom_of_escape {cursor next : Cursor}
    (head : cursor.head? = some (code '\\'))
    (escape : skipEscape.run cursor.advance = .ok ((), next)) :
    textEndFrom cursor = textEndFrom next := by
  rw [textEndFrom]
  split
  · rename_i none
    cases head.symm.trans none
  · rename_i byte same
    cases head.symm.trans same
    rw [if_neg (by decide), if_pos rfl]
    split
    · rename_i failed
      cases escape.symm.trans failed
    · rename_i also
      cases escape.symm.trans also
      rfl

private theorem textEndFrom_of_plain {cursor : Cursor} {byte : UInt8}
    (head : cursor.head? = some byte)
    (notQuote : byte ≠ code '"') (notBackslash : byte ≠ code '\\') (shown : 0x20 ≤ byte) :
    textEndFrom cursor = textEndFrom cursor.advance := by
  rw [textEndFrom]
  split
  · rename_i none
    cases head.symm.trans none
  · rename_i byte same
    cases head.symm.trans same
    rw [if_neg notQuote, if_neg notBackslash, if_neg (UInt8.not_lt.mpr shown)]

private theorem quoted_of_skipText {cursor behind : Cursor}
    (found : skipText.run cursor = .ok ((), behind)) :
    Quoted cursor.rest behind.rest ∧ ∃ front, front ≠ [] ∧ cursor.rest = front ++ behind.rest ∧
      ∀ next, skipText.Takes front () next := by
  replace found : textEndFrom cursor = .ok ((), behind) := found
  fun_induction textEndFrom cursor generalizing behind with
  | case1 => cases found
  | case2 cursor head =>
      cases found
      have begins := rest_of_head? head
      refine ⟨begins ▸ .close, [code '"'], by simp, begins, fun next rest position _ => ?_⟩
      exact ⟨_, textEndFrom_of_quote rfl⟩
  | case3 => cases found
  | case4 cursor _ next escape head _ ih =>
      obtain ⟨quoted, front, _, split, takes⟩ := ih found
      obtain ⟨letters, _, before, escapes⟩ := firm_skipEscape escape
      have begins := rest_of_head? head
      refine ⟨begins ▸ quoted.of_skipEscape escape, code '\\' :: (letters ++ front), by simp, ?_,
        fun next rest position ends => ?_⟩
      · rw [begins, before, split]
        simp
      · obtain ⟨middle, escaped⟩ := escapes (front ++ rest).head? (front ++ rest)
          (Cursor.after position (code '\\')) rfl
        obtain ⟨last, done⟩ := takes next rest middle ends
        refine ⟨last, ?_⟩
        rw [List.cons_append, List.append_assoc]
        exact (@textEndFrom_of_escape ⟨code '\\' :: (letters ++ (front ++ rest)), position⟩ _ rfl
          escaped).trans done
  | case5 => cases found
  | case6 cursor byte head notQuote notBackslash shown ih =>
      obtain ⟨quoted, front, _, split, takes⟩ := ih found
      have begins := rest_of_head? head
      have shown : 0x20 ≤ byte := UInt8.not_lt.mp shown
      refine ⟨begins ▸ .plain notQuote notBackslash shown quoted, byte :: front, by simp,
        begins.trans (congrArg _ split), fun next rest position ends => ?_⟩
      obtain ⟨last, done⟩ := takes next rest (Cursor.after position byte) ends
      exact ⟨last, (@textEndFrom_of_plain ⟨byte :: (front ++ rest), position⟩ byte rfl notQuote
        notBackslash shown).trans done⟩

private theorem firm_skipText : skipText.Firm :=
  fun _ _ _ found => (quoted_of_skipText found).2

/-! ## Scalars -/

private theorem local_skipScalar : skipScalar.Local := by
  unfold skipScalar
  refine local_peek.bind fun next => ?_
  have word (char : Char) (chars : List Char) :
      (advance >>= fun _ => takeLiteral (char :: chars)).Local :=
    local_advance.bind fun _ => (firm_takeLiteral char chars).isLocal
  cases next with
  | none => exact (fails_failNext _).isLocal
  | some byte =>
      exact local_ite local_skipUnsigned (local_ite (local_advance.bind fun _ => local_skipUnsigned)
        (local_ite (local_advance.bind fun _ => firm_skipText.isLocal) (local_ite (word _ _)
          (local_ite (word _ _) (local_ite (word _ _) (fails_failNext _).isLocal)))))

theorem Scalar.of_literal {word : String} {chars : List Char} {byte : UInt8} {cursor behind : Cursor}
    (head : cursor.head? = some byte) (known : word ∈ ["null", "true", "false"])
    (spelled : utf8 word = byte :: chars.map code)
    (found : (advance >>= fun _ => takeLiteral chars).run cursor = .ok ((), behind)) :
    Scalar cursor.rest behind.rest := by
  obtain ⟨_, _, moved, found⟩ := run_bind_eq_ok.mp found
  cases moved
  rw [rest_of_head? head, rest_takeLiteral found, ← List.cons_append, ← spelled]
  exact .word known

private theorem scalar_of_skipScalar {cursor behind : Cursor}
    (found : skipScalar.run cursor = .ok ((), behind)) : Scalar cursor.rest behind.rest := by
  unfold skipScalar at found
  rw [run_bind, run_peek] at found
  dsimp only at found
  split at found
  · cases found
  rename_i byte head
  split at found
  · obtain ⟨_, _, whole, fraction, exponent⟩ := whole_of_skipUnsigned found
    exact .number (.plain whole fraction exponent)
  split at found
  · rename_i minus
    obtain ⟨_, _, moved, found⟩ := run_bind_eq_ok.mp found
    cases moved
    obtain ⟨_, _, whole, fraction, exponent⟩ := whole_of_skipUnsigned found
    rw [rest_of_head? head, minus]
    exact .number (.negative whole fraction exponent)
  split at found
  · rename_i quote
    obtain ⟨_, _, moved, found⟩ := run_bind_eq_ok.mp found
    cases moved
    rw [rest_of_head? head, quote]
    exact .text (quoted_of_skipText found).1
  split at found
  · rename_i letter
    exact .of_literal head (by simp) (letter ▸ rfl : utf8 "null" = _) found
  split at found
  · rename_i letter
    exact .of_literal head (by simp) (letter ▸ rfl : utf8 "true" = _) found
  split at found
  · rename_i letter
    exact .of_literal head (by simp) (letter ▸ rfl : utf8 "false" = _) found
  · cases found

/-! ## Names -/

theorem local_takeColon : takeColon.Local := by
  unfold takeColon
  refine local_skipBlanks.bind fun _ => local_peek.bind fun next => ?_
  cases next with
  | none => exact (fails_failNext _).isLocal
  | some byte => exact local_ite local_advance (fails_failNext _).isLocal

theorem rest_takeColon {cursor behind : Cursor}
    (found : takeColon.run cursor = .ok ((), behind)) :
    afterBlanks cursor.rest = code ':' :: behind.rest := by
  unfold takeColon at found
  obtain ⟨start, begins, found⟩ := run_blanks_peek found
  rw [← begins]
  split at found
  · cases found
  rename_i byte head
  split at found
  · rename_i colon
    cases found
    rw [← colon]
    exact rest_of_head? head
  · cases found

private theorem local_skipName : skipName.Local := by
  unfold skipName
  refine local_skipBlanks.bind fun _ => local_peek.bind fun next => ?_
  have behind : (do advance; skipText; takeColon : Reader Unit).Local :=
    local_advance.bind fun _ => firm_skipText.isLocal.bind fun _ => local_takeColon
  cases next with
  | none => exact (fails_failNext _).isLocal
  | some byte => exact local_ite ((fails_failNext _).isLocal.bind fun _ => behind) behind

private theorem entry_of_skipName {cursor behind : Cursor}
    (found : skipName.run cursor = .ok ((), behind)) :
    Entry .object cursor.rest behind.rest := by
  unfold skipName at found
  obtain ⟨start, begins, found⟩ := run_blanks_peek found
  split at found
  · cases found
  rename_i byte head
  split at found
  · cases found
  rename_i quote
  obtain ⟨_, _, moved, found⟩ := run_bind_eq_ok.mp found
  cases moved
  obtain ⟨_, middle, text, found⟩ := run_bind_eq_ok.mp found
  refine .member ?_ (quoted_of_skipText text).1 (rest_takeColon found)
  rw [← begins, rest_of_head? head, Decidable.not_not.mp quote]

/-! ## Open lists and objects -/

theorem Frame.opening_of_ofByte? {frame : Frame} {byte : UInt8}
    (known : Frame.ofByte? byte = some frame) : byte = frame.opening := by
  unfold Frame.ofByte? at known
  split at known
  · cases known
    assumption
  split at known
  · cases known
    assumption
  · cases known

private theorem local_openFrame : openFrame.Local := by
  unfold openFrame
  refine local_peek.bind fun next => ?_
  split
  · exact local_pure none
  · exact local_advance.bind fun _ => local_pure _

private theorem local_enterFrame (frame : Frame) : (enterFrame frame).Local := by
  cases frame with
  | list => exact local_pure ()
  | object => exact local_skipName

private theorem local_closeFrames (behindValue : Bool) (frames : List Frame) :
    (closeFrames behindValue frames).Local := by
  induction frames generalizing behindValue with
  | nil => exact local_pure []
  | cons frame outer ih =>
      unfold closeFrames
      refine local_skipBlanks.bind fun _ => local_peek.bind fun next => ?_
      have entering : (do enterFrame frame; return frame :: outer : Reader (List Frame)).Local :=
        (local_enterFrame frame).bind fun _ => local_pure _
      cases next with
      | none => exact (fails_failNext _).isLocal
      | some byte =>
          exact local_ite (local_advance.bind fun _ => ih true) (local_ite entering
            (local_ite (local_advance.bind fun _ => entering) (fails_failNext _).isLocal))

private theorem local_skipStep (frames : List Frame) : (skipStep frames).Local := by
  unfold skipStep
  refine local_skipBlanks.bind fun _ => local_openFrame.bind fun opened => ?_
  cases opened with
  | none => exact local_skipScalar.bind fun _ => local_closeFrames true frames
  | some frame => exact local_closeFrames false (frame :: frames)

/-- The rest of the lists and objects that are open behind a value, innermost first. -/
inductive Closes : List Frame → Bytes → Bytes → Prop where
  | nil {rest} : Closes [] rest rest
  | cons {frame outer bytes middle rest} : Stands (.behind frame) bytes middle →
      Closes outer middle rest → Closes (frame :: outer) bytes rest

/-- What is still to come when some frames are open: nothing, or a value and the end of them. -/
def Awaits (frames : List Frame) (bytes rest : Bytes) : Prop :=
  if frames = [] then rest = bytes
  else ∃ middle, Stands .value (afterBlanks bytes) middle ∧ Closes frames middle rest

theorem Entry.of_enterFrame {frame : Frame} {cursor behind : Cursor}
    (found : (enterFrame frame).run cursor = .ok ((), behind)) :
    Entry frame cursor.rest behind.rest := by
  cases frame with
  | list =>
      cases found
      exact .item
  | object => exact entry_of_skipName found

private theorem stands_of_enterFrame {frame : Frame} {outer frames : List Frame}
    {cursor behind : Cursor} {rest : Bytes}
    (found : (do enterFrame frame; return frame :: outer : Reader (List Frame)).run cursor =
      .ok (frames, behind))
    (awaits : Awaits frames behind.rest rest) :
    ∃ middle, Stands (.inside frame) cursor.rest middle ∧ Closes outer middle rest := by
  obtain ⟨_, _, entered, found⟩ := run_bind_eq_ok.mp found
  obtain ⟨rfl, rfl⟩ := run_pure_eq_ok.mp found
  obtain ⟨middle, stands, closes⟩ := (if_neg (List.cons_ne_nil _ _)).mp awaits
  cases closes with
  | cons behind closes => exact ⟨_, .entry (.of_enterFrame entered) stands behind, closes⟩

private theorem closes_of_closeFrames {frames opened : List Frame} {cursor behind : Cursor}
    {rest : Bytes}
    (found : (closeFrames true frames).run cursor = .ok (opened, behind))
    (awaits : Awaits opened behind.rest rest) : Closes frames cursor.rest rest := by
  induction frames generalizing cursor with
  | nil =>
      obtain ⟨rfl, rfl⟩ := run_pure_eq_ok.mp found
      obtain rfl := (if_pos rfl).mp awaits
      exact .nil
  | cons frame outer ih =>
      unfold closeFrames at found
      obtain ⟨start, same, found⟩ := run_blanks_peek found
      split at found
      · cases found
      rename_i byte head
      have begins : afterBlanks cursor.rest = byte :: start.advance.rest := by
        rw [← same, rest_of_head? head]
      split at found
      · rename_i closing
        subst closing
        obtain ⟨_, _, moved, found⟩ := run_bind_eq_ok.mp found
        cases moved
        exact .cons (.last begins) (ih found)
      split at found
      · contradiction
      split at found
      · rename_i comma
        subst comma
        obtain ⟨_, _, moved, found⟩ := run_bind_eq_ok.mp found
        cases moved
        obtain ⟨middle, stands, closes⟩ := stands_of_enterFrame found awaits
        exact .cons (.more begins stands) closes
      · cases found

private theorem stands_of_opened {frame : Frame} {outer opened : List Frame}
    {cursor behind : Cursor} {rest : Bytes}
    (found : (closeFrames false (frame :: outer)).run cursor = .ok (opened, behind))
    (awaits : Awaits opened behind.rest rest) :
    ∃ middle, Stands .value (frame.opening :: cursor.rest) middle ∧ Closes outer middle rest := by
  unfold closeFrames at found
  obtain ⟨start, same, found⟩ := run_blanks_peek found
  split at found
  · cases found
  rename_i byte head
  have begins : afterBlanks cursor.rest = byte :: start.advance.rest := by
    rw [← same, rest_of_head? head]
  split at found
  · rename_i closing
    subst closing
    obtain ⟨_, _, moved, found⟩ := run_bind_eq_ok.mp found
    cases moved
    exact ⟨_, .empty begins, closes_of_closeFrames found awaits⟩
  · obtain ⟨middle, stands, closes⟩ := stands_of_enterFrame found awaits
    rw [same] at stands
    exact ⟨middle, .filled stands.inside_of_afterBlanks, closes⟩

private theorem stands_of_skipStep {frames opened : List Frame} {cursor behind : Cursor}
    {rest : Bytes}
    (found : (skipStep frames).run cursor = .ok (opened, behind))
    (awaits : Awaits opened behind.rest rest) :
    ∃ middle, Stands .value (afterBlanks cursor.rest) middle ∧ Closes frames middle rest := by
  unfold skipStep at found
  obtain ⟨_, start, blanks, found⟩ := run_bind_eq_ok.mp found
  rw [← rest_skipBlanks blanks]
  obtain ⟨first, middle, opens, found⟩ := run_bind_eq_ok.mp found
  unfold openFrame at opens
  rw [run_bind, run_peek] at opens
  dsimp only at opens
  split at opens
  · cases opens
    obtain ⟨_, last, scalar, found⟩ := run_bind_eq_ok.mp found
    exact ⟨last.rest, .scalar (scalar_of_skipScalar scalar), closes_of_closeFrames found awaits⟩
  · rename_i frame known
    cases opens
    obtain ⟨byte, head, known⟩ := Option.bind_eq_some_iff.mp known
    rw [rest_of_head? head, Frame.opening_of_ofByte? known]
    exact stands_of_opened found awaits

/-! ## Values -/

private theorem valueEndFrom_of_end {frames : List Frame} {cursor behind : Cursor}
    (step : (skipStep frames).run cursor = .ok ([], behind)) :
    valueEndFrom frames cursor = .ok ((), behind) := by
  rw [valueEndFrom]
  split
  · rename_i failed
    cases step.symm.trans failed
  · rename_i ended
    cases step.symm.trans ended
    rfl
  · rename_i goes
    cases step.symm.trans goes

private theorem valueEndFrom_of_more {frames outer : List Frame} {frame : Frame}
    {cursor behind : Cursor} (step : (skipStep frames).run cursor = .ok (frame :: outer, behind)) :
    valueEndFrom frames cursor = valueEndFrom (frame :: outer) behind := by
  rw [valueEndFrom]
  split
  · rename_i failed
    cases step.symm.trans failed
  · rename_i ended
    cases step.symm.trans ended
  · rename_i goes
    cases step.symm.trans goes
    rfl

private theorem stands_of_valueEndFrom {frames : List Frame} {cursor behind : Cursor}
    (found : valueEndFrom frames cursor = .ok ((), behind)) :
    ∃ middle, Stands .value (afterBlanks cursor.rest) middle ∧
      Closes frames middle behind.rest := by
  fun_induction valueEndFrom frames cursor generalizing behind with
  | case1 => cases found
  | case2 frames cursor last step =>
      cases found
      exact stands_of_skipStep step ((if_pos rfl).mpr rfl)
  | case3 frames cursor frame outer middle step ih =>
      exact stands_of_skipStep step ((if_neg (List.cons_ne_nil _ _)).mpr (ih found))

theorem stands_of_skipValue {cursor behind : Cursor}
    (found : skipValue.run cursor = .ok ((), behind)) :
    Stands .value (afterBlanks cursor.rest) behind.rest := by
  obtain ⟨middle, stands, closes⟩ := stands_of_valueEndFrom found
  cases closes
  exact stands

theorem local_skipValue : skipValue.Local := by
  intro cursor behind value found
  replace found : valueEndFrom [] cursor = .ok ((), behind) := found
  show ∃ front, cursor.rest = front ++ behind.rest ∧
    ∀ rest position, rest.head? = behind.head? → ∃ last,
      valueEndFrom [] ⟨front ++ rest, position⟩ = .ok ((), ⟨rest, last⟩)
  generalize ([] : List Frame) = frames at found ⊢
  fun_induction valueEndFrom frames cursor generalizing behind with
  | case1 => cases found
  | case2 frames cursor last step =>
      cases found
      obtain ⟨front, split, takes⟩ := local_skipStep frames step
      refine ⟨front, split, fun rest position head => ?_⟩
      obtain ⟨last, done⟩ := takes rest position head
      exact ⟨last, valueEndFrom_of_end done⟩
  | case3 frames cursor frame outer middle step ih =>
      obtain ⟨front, split, takes⟩ := local_skipStep frames step
      obtain ⟨second, left, more⟩ := ih found
      refine ⟨front ++ second, by rw [split, left, List.append_assoc], fun rest position head => ?_⟩
      obtain ⟨between, first⟩ := takes (second ++ rest) position
        (by rw [Cursor.head?, left, List.head?_append, List.head?_append, head, Cursor.head?])
      obtain ⟨last, done⟩ := more rest between head
      rw [List.append_assoc]
      exact ⟨last, (valueEndFrom_of_more first).trans done⟩

end DocumentClient.Json
