import DocumentClient.Json.Scalar

/-!
# Skipping values

A value that nobody wants is passed over without a limit on its nesting. Only its structure is
checked: the open lists and objects are kept as a stack, and the characters of its texts and the
size of its numbers do not matter.
-/

set_option autoImplicit false

namespace DocumentClient.Json

open Reader

/-- A list or an object that is still open. -/
inductive Frame where
  | list
  | object
deriving Repr, DecidableEq

namespace Frame

def opening : Frame → UInt8
  | .list => code '['
  | .object => code '\x7b'

def closing : Frame → UInt8
  | .list => code ']'
  | .object => code '\x7d'

def ofByte? (byte : UInt8) : Option Frame :=
  if byte = opening .list then some .list
  else if byte = opening .object then some .object
  else none

def endCause : Frame → Cause
  | .list => .endInList
  | .object => .endInObject

def separatorCause : Frame → Cause
  | .list => .listCommaOrEnd
  | .object => .objectCommaOrEnd

end Frame

/-! ## Scalars -/

def skipExponent : Reader Unit := do
  advance
  if (← peek).any isSign then advance
  let first ← takeByte .number
  if isDigit first then skipWhile isDigit else failHere .number

def skipFraction : Reader Unit := do
  if (← peek) = some (code '.') then
    advance
    let first ← peek
    skipWhile isDigit
    if !first.any isDigit then failNext .number
    if (← peek).any isExponentMark then skipExponent
  else if (← peek).any isExponentMark then skipExponent

def skipUnsigned : Reader Unit := do
  let first ← takeByte .number
  if !isDigit first then failHere .number
  else if first = code '0' then
    if (← peek).any isDigit then failNext .number else skipFraction
  else
    skipWhile isDigit
    skipFraction

def skipEscape : Reader Unit := do
  let byte ← takeByte .endInText
  if byte = code 'u' then
    let _ ← takeHex
  else if (escapedChar? byte).isNone then failHere .escape

def textEndFrom (cursor : Cursor) : Except Fault (Unit × Cursor) :=
  match _head : cursor.head? with
  | none => .error (cursor.faultHere .endInText)
  | some byte =>
    if byte = code '"' then .ok ((), cursor.advance)
    else if byte = code '\\' then
      match _escape : skipEscape.run cursor.advance with
      | .error fault => .error fault
      | .ok (_, next) => textEndFrom next
    else if byte < 0x20 then .error (cursor.faultHere .controlCharacter)
    else textEndFrom cursor.advance
termination_by cursor.size
decreasing_by
  · have := skipEscape.size_le _escape
    have := Cursor.size_advance_lt _head
    omega
  · exact Cursor.size_advance_lt _head

theorem size_textEndFrom_le {cursor behind : Cursor}
    (found : textEndFrom cursor = .ok ((), behind)) : behind.size ≤ cursor.size := by
  fun_induction textEndFrom cursor with
  | case1 => cases found
  | case2 cursor =>
      cases found
      rw [Cursor.size_advance]
      omega
  | case3 => cases found
  | case4 cursor _ next escape head _ ih =>
      have := ih found
      have := skipEscape.size_le escape
      have := Cursor.size_advance_lt head
      omega
  | case5 => cases found
  | case6 cursor byte head _ _ _ ih =>
      have := ih found
      have := Cursor.size_advance_lt head
      omega

def skipText : Reader Unit where
  run := textEndFrom
  size_le := size_textEndFrom_le

def skipScalar : Reader Unit := do
  match ← peek with
  | none => failNext .endInValue
  | some byte =>
    if isDigit byte then skipUnsigned
    else if byte = code '-' then
      advance
      skipUnsigned
    else if byte = code '"' then
      advance
      skipText
    else if byte = code 'n' then
      advance
      takeLiteral "ull".toList
    else if byte = code 't' then
      advance
      takeLiteral "rue".toList
    else if byte = code 'f' then
      advance
      takeLiteral "alse".toList
    else failNext .value

/-! ## Structure -/

def openFrame : Reader (Option Frame) := do
  match (← peek).bind Frame.ofByte? with
  | none => return none
  | some frame =>
    advance
    return some frame

def takeColon : Reader Unit := do
  skipBlanks
  match ← peek with
  | none => failNext .endInObject
  | some byte => if byte = code ':' then advance else failNext .colon

def skipName : Reader Unit := do
  skipBlanks
  match ← peek with
  | none => failNext .endInObject
  | some byte =>
    if byte ≠ code '"' then failNext .nameNotText
    advance
    skipText
    takeColon

/-- What stands in front of a value of a frame. -/
def enterFrame : Frame → Reader Unit
  | .list => return ()
  | .object => skipName

/-- Closes the frames that end here, innermost first. Behind a value a comma leads to the next one,
and in a frame just opened anything else is its first value. -/
def closeFrames (behindValue : Bool) : List Frame → Reader (List Frame)
  | [] => return []
  | frame :: outer => do
    skipBlanks
    match ← peek with
    | none => failNext frame.endCause
    | some byte =>
      if byte = frame.closing then
        advance
        closeFrames true outer
      else if !behindValue then
        enterFrame frame
        return frame :: outer
      else if byte = code ',' then
        advance
        enterFrame frame
        return frame :: outer
      else failNext frame.separatorCause

/-- Passes a scalar or an opening bracket, and goes on to the next value inside some frames. -/
def skipStep (frames : List Frame) : Reader (List Frame) := do
  skipBlanks
  match ← openFrame with
  | some frame => closeFrames false (frame :: frames)
  | none =>
    skipScalar
    closeFrames true frames

theorem size_openFrame_lt {cursor behind : Cursor} {frame : Frame}
    (found : openFrame.run cursor = .ok (some frame, behind)) : behind.size < cursor.size := by
  unfold openFrame at found
  simp only [run_bind, run_peek] at found
  split at found
  · simp at found
  · rename_i opened known
    obtain ⟨byte, head, _⟩ := Option.bind_eq_some_iff.1 known
    simp only [run_bind, run_advance, run_pure, Except.ok.injEq, Prod.mk.injEq] at found
    exact found.2 ▸ Cursor.size_advance_lt head

/-- Behind a value another one is only reached through a comma. -/
theorem size_closeFrames_lt {frames outer : List Frame} {frame : Frame} {cursor behind : Cursor}
    (found : (closeFrames true frames).run cursor = .ok (frame :: outer, behind)) :
    behind.size < cursor.size := by
  induction frames generalizing cursor with
  | nil => simp [closeFrames] at found
  | cons first rest ih =>
      unfold closeFrames at found
      obtain ⟨_, start, blanks, found⟩ := run_bind_eq_ok.1 found
      have := skipBlanks.size_le blanks
      simp only [run_bind, run_peek] at found
      split at found
      · simp at found
      · rename_i byte head
        have := Cursor.size_advance_lt head
        split at found
        · simp only [run_bind, run_advance] at found
          have := ih found
          omega
        · simp only [Bool.not_true, Bool.false_eq_true, if_false] at found
          split at found
          · rw [run_bind, run_advance] at found
            obtain ⟨_, _, entered, found⟩ := run_bind_eq_ok.1 found
            cases found
            have := (enterFrame _).size_le entered
            omega
          · simp at found

/-- A step that leaves a frame open has taken a bracket or a comma. -/
theorem size_skipStep_lt {frames outer : List Frame} {frame : Frame} {cursor behind : Cursor}
    (found : (skipStep frames).run cursor = .ok (frame :: outer, behind)) :
    behind.size < cursor.size := by
  unfold skipStep at found
  obtain ⟨_, start, blanks, found⟩ := run_bind_eq_ok.1 found
  obtain ⟨opened, middle, first, found⟩ := run_bind_eq_ok.1 found
  have := skipBlanks.size_le blanks
  split at found
  · have := size_openFrame_lt first
    have := (closeFrames _ _).size_le found
    omega
  · obtain ⟨_, last, scalar, found⟩ := run_bind_eq_ok.1 found
    have := openFrame.size_le first
    have := skipScalar.size_le scalar
    have := size_closeFrames_lt found
    omega

/-- The place behind the value in which some frames are open. -/
def valueEndFrom (frames : List Frame) (cursor : Cursor) : Except Fault (Unit × Cursor) :=
  match _step : (skipStep frames).run cursor with
  | .error fault => .error fault
  | .ok ([], behind) => .ok ((), behind)
  | .ok (frame :: outer, behind) => valueEndFrom (frame :: outer) behind
termination_by cursor.size
decreasing_by exact size_skipStep_lt _step

theorem size_valueEndFrom_le {frames : List Frame} {cursor behind : Cursor}
    (found : valueEndFrom frames cursor = .ok ((), behind)) : behind.size ≤ cursor.size := by
  fun_induction valueEndFrom frames cursor with
  | case1 => cases found
  | case2 frames cursor last step =>
      cases found
      exact (skipStep frames).size_le step
  | case3 frames cursor frame outer middle step ih =>
      have := ih found
      have := size_skipStep_lt step
      omega

def skipValue : Reader Unit where
  run := valueEndFrom []
  size_le := size_valueEndFrom_le

end DocumentClient.Json
