import DocumentClient.Proofs.Json.Text

/-!
# Reading numbers

What is read as a number is one by the grammar. Where a number stands at the end of some bytes it is
the same number in front of any others, as long as these do not carry it on.
-/

set_option autoImplicit false

namespace DocumentClient.Json

open Reader

/-- What may stand behind a number that is written as `front`. -/
structure NumberStops (front : Bytes) (next : Option UInt8) : Prop where
  digit : next.any isDigit = false
  mark : front.any isExponentMark = false → next.any isExponentMark = false
  point : front.any isExponentMark = false → code '.' ∉ front → next ≠ some (code '.')

/-! ## Digits -/

private theorem digitsFrom_of_stop {limit value count : Nat} {rest : Bytes}
    (stops : ∀ byte, rest.head? = some byte →
      (isDigit byte && decide (value * 10 + digitValue byte ≤ limit)) = false)
    (position : Position) :
    ∃ last, digitsFrom limit value count rest position = ((value, count), ⟨rest, last⟩) := by
  cases rest with
  | nil => exact ⟨position, rfl⟩
  | cons byte rest =>
      rw [digitsFrom, stops byte rfl]
      exact ⟨position, rfl⟩

private theorem digits_of_digitsFrom {limit start count value total : Nat} {bytes : Bytes}
    {position : Position} {behind : Cursor}
    (found : digitsFrom limit start count bytes position = ((value, total), behind)) :
    ∃ digits, (∀ byte ∈ digits, isDigit byte = true) ∧ total = count + digits.length ∧
      bytes = digits ++ behind.rest ∧
      ∀ rest position, rest.head?.any isDigit = false ∨ rest.head? = behind.head? →
        ∃ last, digitsFrom limit start count (digits ++ rest) position =
          ((value, total), ⟨rest, last⟩) := by
  induction bytes generalizing start count position with
  | nil =>
      cases found
      refine ⟨[], by simp, rfl, rfl, fun rest position ends => digitsFrom_of_stop ?_ position⟩
      intro byte head
      replace head : rest.head? = some byte := head
      rcases ends with plain | same
      · rw [head] at plain
        rw [show isDigit byte = false from plain, Bool.false_and]
      · cases head.symm.trans same
  | cons byte bytes ih =>
      rw [digitsFrom] at found
      split at found
      · rename_i fits
        obtain ⟨digits, all, sum, split, takes⟩ := ih found
        refine ⟨byte :: digits, ?_, ?_, by rw [split]; rfl, fun rest position ends => ?_⟩
        · exact List.forall_mem_cons.mpr ⟨(Bool.and_eq_true_iff.mp fits).1, all⟩
        · rw [sum, List.length_cons]
          omega
        · obtain ⟨last, same⟩ := takes rest (Cursor.after position byte) ends
          refine ⟨last, ?_⟩
          rw [List.cons_append, digitsFrom, if_pos fits, same]
      · rename_i overflows
        cases found
        refine ⟨[], by simp, rfl, rfl, fun rest position ends => digitsFrom_of_stop ?_ position⟩
        intro other head
        replace head : rest.head? = some other := head
        rcases ends with plain | same
        · rw [head] at plain
          rw [show isDigit other = false from plain, Bool.false_and]
        · cases head.symm.trans same
          exact Bool.eq_false_iff.mpr overflows

private theorem digits_of_takeDigits {limit start value count : Nat} {cursor behind : Cursor}
    (found : (takeDigits limit start).run cursor = .ok ((value, count), behind)) :
    ∃ digits, (∀ byte ∈ digits, isDigit byte = true) ∧ count = digits.length ∧
      cursor.rest = digits ++ behind.rest ∧
      ∀ next, next.any isDigit = false ∨ next = behind.head? →
        (takeDigits limit start).Takes digits (value, count) next := by
  obtain ⟨digits, all, sum, split, takes⟩ := digits_of_digitsFrom (Except.ok.inj found)
  refine ⟨digits, all, by rw [sum, Nat.zero_add], split, fun next ends rest position head => ?_⟩
  obtain ⟨last, same⟩ := takes rest position (head ▸ ends)
  exact ⟨last, congrArg Except.ok same⟩

private theorem digits_of_skipWhile (cursor : Cursor) :
    ∃ digits, (∀ byte ∈ digits, isDigit byte = true) ∧
      cursor.rest = digits ++ (cursor.skipWhile isDigit).rest ∧
      (cursor.skipWhile isDigit).head?.any isDigit = false := by
  refine ⟨cursor.rest.takeWhile isDigit, ?_, ?_, ?_⟩
  · exact List.all_eq_true.mp List.all_takeWhile
  · rw [rest_skipWhile, List.takeWhile_append_dropWhile]
  · rw [Cursor.head?, rest_skipWhile]
    have stops := List.head?_dropWhile_not isDigit cursor.rest
    cases head : (cursor.rest.dropWhile isDigit).head? with
    | none => rfl
    | some byte => simpa [head] using stops

/-! ## Exponents -/

private theorem bare_scaled (positive : Bool) (significand : Nat) (exponent : Int) :
    (scaled positive significand exponent).Bare := by
  unfold scaled
  split
  · exact (fails_failHere _).bare
  · dsimp only
    generalize scale significand _ = value
    split
    · exact (fails_failHere _).bare
    · exact bare_pure _

/-- What becomes of an exponent of too many digits. -/
def takeExcess (positive : Bool) (significand : Nat) (negative : Bool) : Reader Number :=
  if significand ≠ 0 ∧ !negative then do
    advance
    failHere .numberRange
  else do
    skipWhile isDigit
    return signed positive 0

/-- The digits of an exponent, behind the first one. -/
def takePowerFrom (positive : Bool) (significand : Nat) (shift : Int) (negative : Bool)
    (first : Nat) : Reader Number := do
  let (exponent, _) ← takeDigits greatestExponent first
  if (← peek).any isDigit then takeExcess positive significand negative
  else scaled positive significand (shift + if negative then -(exponent : Int) else exponent)

/-- The digits of an exponent, behind its sign. -/
def takePower (positive : Bool) (significand : Nat) (shift : Int) (negative : Bool) :
    Reader Number := do
  let first ← takeByte .endInValue
  if !isDigit first then failHere .number
  else takePowerFrom positive significand shift negative (digitValue first)

private theorem takeExponent_eq (positive : Bool) (significand : Nat) (shift : Int) :
    takeExponent positive significand shift = (do
      advance
      let sign ← peek
      if sign.any isSign then
        advance
        takePower positive significand shift (sign == some (code '-'))
      else takePower positive significand shift (sign == some (code '-'))) :=
  rfl

private theorem digits_of_takeExcess {positive negative : Bool} {significand : Nat}
    {cursor behind : Cursor} {number : Number}
    (found : (takeExcess positive significand negative).run cursor = .ok (number, behind)) :
    ∃ digits, (∀ byte ∈ digits, isDigit byte = true) ∧ cursor.rest = digits ++ behind.rest ∧
      behind.head?.any isDigit = false ∧
      ∀ next, next.any isDigit = false →
        (takeExcess positive significand negative).Takes digits number next := by
  unfold takeExcess at found ⊢
  split at found
  · cases found
  · rename_i small
    obtain ⟨_, _, moved, found⟩ := run_bind_eq_ok.mp found
    cases moved
    obtain ⟨rfl, rfl⟩ := run_pure_eq_ok.mp found
    obtain ⟨digits, all, split, stops⟩ := digits_of_skipWhile cursor
    refine ⟨digits, all, split, stops, fun next ends => ?_⟩
    rw [if_neg small, ← List.append_nil digits]
    exact Takes.bind (takes_skipWhile all ends) (takes_pure (signed positive 0) next)

private theorem digits_of_takePowerFrom {positive negative : Bool} {significand first : Nat}
    {shift : Int} {cursor behind : Cursor} {number : Number}
    (found : (takePowerFrom positive significand shift negative first).run cursor =
      .ok (number, behind)) :
    ∃ digits, (∀ byte ∈ digits, isDigit byte = true) ∧ cursor.rest = digits ++ behind.rest ∧
      behind.head?.any isDigit = false ∧
      ∀ next, next.any isDigit = false →
        (takePowerFrom positive significand shift negative first).Takes digits number next := by
  unfold takePowerFrom at found ⊢
  obtain ⟨⟨exponent, count⟩, middle, read, found⟩ := run_bind_eq_ok.mp found
  obtain ⟨digits, all, _, split, takes⟩ := digits_of_takeDigits read
  obtain ⟨_, _, moved, found⟩ := run_bind_eq_ok.mp found
  cases moved
  split at found
  · rename_i more
    obtain ⟨others, also, left, stops, excess⟩ := digits_of_takeExcess found
    rw [Cursor.head?, left] at more
    cases others with
    | nil => cases more.symm.trans stops
    | cons byte others =>
        refine ⟨digits ++ byte :: others, List.forall_mem_append.mpr ⟨all, also⟩,
          by rw [split, left, List.append_assoc], stops, fun next ends => ?_⟩
        refine Takes.bind (takes _ (.inr ?_)) (Takes.bind_nothing (takes_peek _) ?_)
        · rw [Cursor.head?, left]
          rfl
        · exact (excess next ends).if_pos more
  · rename_i stops
    obtain ⟨rfl, same⟩ := bare_scaled _ _ _ found
    have scales := takes_of_run same
    refine ⟨digits, all, split, Bool.eq_false_iff.mpr stops, fun next ends => ?_⟩
    rw [← List.append_nil digits]
    refine Takes.bind (takes next (.inl ends)) (Takes.bind_nothing (takes_peek next) ?_)
    exact (scales next).if_neg (Bool.eq_false_iff.mp ends)

private theorem digits_of_takePower {positive negative : Bool} {significand : Nat} {shift : Int}
    {cursor behind : Cursor} {number : Number}
    (found : (takePower positive significand shift negative).run cursor = .ok (number, behind)) :
    Digits cursor.rest behind.rest ∧ ∃ first digits,
      cursor.rest = first :: (digits ++ behind.rest) ∧ ∀ next, next.any isDigit = false →
        (takePower positive significand shift negative).Takes (first :: digits) number next := by
  unfold takePower at found ⊢
  obtain ⟨first, start, taken, found⟩ := run_bind_eq_ok.mp found
  split at found
  · cases found
  · rename_i digit
    obtain ⟨digits, all, split, stops, takes⟩ := digits_of_takePowerFrom found
    rw [rest_takeByte taken, split]
    refine ⟨?_, first, digits, rfl, fun next ends => ?_⟩
    · have digit : isDigit first = true := by simpa using digit
      exact Digits.of_append (List.cons_ne_nil first digits) (by simpa [digit] using all) stops
    · exact Takes.bind (takes_takeByte _ first _) ((takes next ends).if_neg digit)

private theorem exponent_of_takeExponent {positive : Bool} {significand : Nat} {shift : Int}
    {cursor behind : Cursor} {number : Number} (marked : cursor.head?.any isExponentMark = true)
    (found : (takeExponent positive significand shift).run cursor = .ok (number, behind)) :
    Exponent cursor.rest behind.rest ∧ ∃ mark front, isExponentMark mark = true ∧
      cursor.rest = mark :: (front ++ behind.rest) ∧ ∀ next, next.any isDigit = false →
        (takeExponent positive significand shift).Takes (mark :: front) number next := by
  obtain ⟨bytes, position⟩ := cursor
  cases bytes with
  | nil => cases marked
  | cons mark bytes =>
      rw [takeExponent_eq] at found ⊢
      obtain ⟨_, _, moved, found⟩ := run_bind_eq_ok.mp found
      cases moved
      obtain ⟨sign, _, moved, found⟩ := run_bind_eq_ok.mp found
      cases moved
      split at found
      · rename_i signed
        obtain ⟨_, _, moved, found⟩ := run_bind_eq_ok.mp found
        cases moved
        obtain ⟨digits, first, front, split, takes⟩ := digits_of_takePower found
        cases bytes with
        | nil => cases signed
        | cons sign bytes =>
            replace split : bytes = first :: (front ++ behind.rest) := split
            subst split
            replace signed : (some sign).any isSign = true := signed
            refine ⟨?_, mark, sign :: first :: front, marked, rfl, fun next ends => ?_⟩
            · exact .signed marked signed digits
            · refine Takes.bind (takes_advance mark _) (Takes.bind_nothing (takes_peek _) ?_)
              exact (Takes.bind (takes_advance sign _) (takes next ends)).if_pos signed
      · rename_i unsigned
        obtain ⟨digits, first, front, split, takes⟩ := digits_of_takePower found
        replace split : bytes = first :: (front ++ behind.rest) := split
        subst split
        replace unsigned : ¬(some first).any isSign = true := unsigned
        refine ⟨?_, mark, first :: front, marked, rfl, fun next ends => ?_⟩
        · exact .plain marked (Bool.eq_false_iff.mpr unsigned) digits
        · refine Takes.bind (takes_advance mark _) (Takes.bind_nothing (takes_peek _) ?_)
          exact (takes next ends).if_neg unsigned

/-! ## Fractions -/

private theorem digits_unmarked {digits : Bytes} (all : ∀ byte ∈ digits, isDigit byte = true) :
    digits.any isExponentMark = false := by
  rw [List.any_eq_false]
  intro byte inside
  have plain := byte_all (fun byte => !isDigit byte || !isExponentMark byte) (by decide +kernel) byte
  simpa [all byte inside] using plain

/-- What stands behind the digits of a number, if an exponent is all that may. -/
def takeScale (positive : Bool) (significand : Nat) (shift : Int) : Reader Number := do
  if (← peek).any isExponentMark then takeExponent positive significand shift
  else scaled positive significand shift

private theorem takeFraction_eq (positive : Bool) (significand : Nat) (shift : Int) :
    takeFraction positive significand shift = (do
      advance
      let (significand, count) ← takeDigits greatestSignificand significand
      let next ← peek
      if count = 0 && !next.any isDigit then
        failNext (if next.isNone then .endInValue else .number)
      else
        skipWhile isDigit
        takeScale positive significand (shift - count)) :=
  rfl

private theorem exponent_of_takeScale {positive : Bool} {significand : Nat} {shift : Int}
    {cursor behind : Cursor} {number : Number}
    (found : (takeScale positive significand shift).run cursor = .ok (number, behind)) :
    Exponent cursor.rest behind.rest ∧ ∃ front, cursor.rest = front ++ behind.rest ∧
      ∀ next, next.any isDigit = false →
        (front.any isExponentMark = false → next.any isExponentMark = false) →
          (takeScale positive significand shift).Takes front number next := by
  unfold takeScale at found ⊢
  obtain ⟨_, _, moved, found⟩ := run_bind_eq_ok.mp found
  cases moved
  split at found
  · rename_i marked
    obtain ⟨exponent, mark, front, marks, split, takes⟩ := exponent_of_takeExponent marked found
    refine ⟨exponent, mark :: front, split, fun next ends _ => ?_⟩
    exact Takes.bind_nothing (takes_peek _) ((takes next ends).if_pos marks)
  · rename_i unmarked
    obtain ⟨rfl, same⟩ := bare_scaled _ _ _ found
    refine ⟨.absent (Bool.eq_false_iff.mpr unmarked), [], rfl, fun next _ stops => ?_⟩
    have unmarked := Bool.eq_false_iff.mp (stops rfl)
    exact Takes.bind_nothing (takes_peek _) ((takes_of_run same next).if_neg unmarked)

private theorem head_or (front : Bytes) (next other : Option UInt8) :
    front.head?.or next = next ∨ front.head?.or next = front.head?.or other := by
  cases front with
  | nil => exact .inl rfl
  | cons byte front => exact .inr rfl

private theorem fraction_of_takeFraction {positive : Bool} {significand : Nat} {shift : Int}
    {cursor behind : Cursor} {number : Number} (pointed : cursor.head? = some (code '.'))
    (found : (takeFraction positive significand shift).run cursor = .ok (number, behind)) :
    (∃ middle, Fraction cursor.rest middle ∧ Exponent middle behind.rest) ∧
      ∃ front, cursor.rest = code '.' :: (front ++ behind.rest) ∧ ∀ next, next.any isDigit = false →
        (front.any isExponentMark = false → next.any isExponentMark = false) →
          (takeFraction positive significand shift).Takes (code '.' :: front) number next := by
  obtain ⟨bytes, position⟩ := cursor
  obtain ⟨bytes, rfl⟩ := List.head?_eq_some_iff.mp pointed
  rw [takeFraction_eq] at found ⊢
  obtain ⟨_, _, moved, found⟩ := run_bind_eq_ok.mp found
  cases moved
  obtain ⟨⟨significand, count⟩, middle, read, found⟩ := run_bind_eq_ok.mp found
  obtain ⟨digits, all, length, split, takes⟩ := digits_of_takeDigits read
  obtain ⟨_, _, moved, found⟩ := run_bind_eq_ok.mp found
  cases moved
  split at found
  · cases found
  · rename_i some
    obtain ⟨_, _, moved, found⟩ := run_bind_eq_ok.mp found
    cases moved
    obtain ⟨others, also, left, stops⟩ := digits_of_skipWhile middle
    obtain ⟨exponent, front, last, scales⟩ := exponent_of_takeScale found
    have there : digits ++ others ≠ [] := by
      rintro empty
      obtain ⟨rfl, rfl⟩ := List.append_eq_nil_iff.mp empty
      rw [Cursor.head?, ← List.nil_append (Cursor.rest _), ← left] at stops
      exact some (by simp [length, Cursor.head?, stops])
    have split : bytes = digits ++ (others ++ (front ++ behind.rest)) := by
      rw [← last, ← left, ← split]
      rfl
    subst split
    have both := List.forall_mem_append.mpr ⟨all, also⟩
    refine ⟨⟨front ++ behind.rest, .present ?_, last ▸ exponent⟩, digits ++ (others ++ front),
      by simp, fun next ends unmarked => ?_⟩
    · rw [← List.append_assoc]
      exact .of_append there both (last ▸ stops)
    · have stops : (front.head?.or next).any isDigit = false := by
        rcases head_or front next behind.head? with same | same
        · rwa [same]
        · rwa [same, Cursor.head?, ← List.head?_append, ← last]
      refine Takes.bind (takes_advance _ _) (Takes.bind (takes _ ?_)
        (Takes.bind_nothing (takes_peek _) ?_))
      · rcases head_or (others ++ front) next behind.head? with same | same
        · exact .inl (same.symm ▸ ends)
        · refine .inr (same.trans ?_)
          rw [Cursor.head?, Cursor.head?, left, last, ← List.append_assoc, ← List.head?_append]
      · refine Takes.if_neg (Takes.bind (takes_skipWhile also stops) (scales next ends ?_)) ?_
        · intro plain
          exact unmarked (by rw [← List.append_assoc, List.any_append, digits_unmarked both, plain]; rfl)
        · cases others with
          | nil =>
              rw [List.append_nil] at there
              simp [length, there]
          | cons byte others => simp [also byte]

/-! ## Numbers -/

theorem NumberStops.of_append {plain front : Bytes} {next : Option UInt8}
    (unmarked : plain.any isExponentMark = false) (pointless : code '.' ∉ plain)
    (stops : NumberStops (plain ++ front) next) : NumberStops front next where
  digit := stops.digit
  mark absent := stops.mark (by rw [List.any_append, unmarked, absent]; rfl)
  point absent without := stops.point (by rw [List.any_append, unmarked, absent]; rfl)
    (by simp [pointless, without])

private theorem digits_pointless {digits : Bytes} (all : ∀ byte ∈ digits, isDigit byte = true) :
    code '.' ∉ digits :=
  fun inside => absurd (all _ inside) (by decide)

private theorem head_or_stops {holds : UInt8 → Bool} {front : Bytes} {next other : Option UInt8}
    (first : (front.head?.or other).any holds = false) (last : next.any holds = false) :
    (front.head?.or next).any holds = false := by
  cases front with
  | nil => exact last
  | cons byte front => exact first

/-- A point, an exponent or neither of them. -/
def takeRest (positive : Bool) (significand : Nat) (shift : Int) (otherwise : Reader Number) :
    Reader Number := do
  let next ← peek
  if next = some (code '.') then takeFraction positive significand shift
  else if next.any isExponentMark then takeExponent positive significand shift
  else otherwise

private theorem takeNumberTail_eq (positive : Bool) (significand : Nat) :
    takeNumberTail positive significand =
      takeRest positive significand 0 (pure (integerNumber positive significand)) :=
  rfl

private theorem takeLongNumber_eq (positive : Bool) (significand : Nat) :
    takeLongNumber positive significand = (do
      let count ← countDigits
      takeRest positive significand count (scaled positive significand count)) :=
  rfl

private theorem fraction_of_takeRest {positive : Bool} {significand : Nat} {shift : Int}
    {otherwise : Reader Number} {cursor behind : Cursor} {number : Number} (bare : otherwise.Bare)
    (found : (takeRest positive significand shift otherwise).run cursor = .ok (number, behind)) :
    (∃ middle, Fraction cursor.rest middle ∧ Exponent middle behind.rest) ∧
      ∃ front, cursor.rest = front ++ behind.rest ∧ ∀ next, NumberStops front next →
        (takeRest positive significand shift otherwise).Takes front number next := by
  unfold takeRest at found ⊢
  obtain ⟨_, _, moved, found⟩ := run_bind_eq_ok.mp found
  cases moved
  split at found
  · rename_i pointed
    obtain ⟨grammar, front, split, takes⟩ := fraction_of_takeFraction pointed found
    refine ⟨grammar, code '.' :: front, split, fun next stops => ?_⟩
    have marks (absent : front.any isExponentMark = false) : next.any isExponentMark = false :=
      stops.mark absent
    exact Takes.bind_nothing (takes_peek _) ((takes next stops.digit marks).if_pos rfl)
  · rename_i pointless
    split at found
    · rename_i marked
      obtain ⟨grammar, mark, front, marks, split, takes⟩ := exponent_of_takeExponent marked found
      refine ⟨⟨_, .absent pointless, grammar⟩, mark :: front, split, fun next stops => ?_⟩
      have other : some mark ≠ some (code '.') := by
        rintro same
        cases same
        cases marks
      exact Takes.bind_nothing (takes_peek _)
        (((takes next stops.digit).if_pos marks).if_neg other)
    · rename_i unmarked
      obtain ⟨rfl, same⟩ := bare found
      refine ⟨⟨_, .absent pointless, .absent (Bool.eq_false_iff.mpr unmarked)⟩, [], rfl,
        fun next stops => ?_⟩
      have unmarked := Bool.eq_false_iff.mp (stops.mark rfl)
      have pointless := stops.point rfl List.not_mem_nil
      exact Takes.bind_nothing (takes_peek _) 
        (((takes_of_run same next).if_neg unmarked).if_neg pointless)

private theorem fraction_of_takeNumberTail {positive : Bool} {significand : Nat}
    {cursor behind : Cursor} {number : Number}
    (found : (takeNumberTail positive significand).run cursor = .ok (number, behind)) :
    (∃ middle, Fraction cursor.rest middle ∧ Exponent middle behind.rest) ∧
      ∃ front, cursor.rest = front ++ behind.rest ∧ ∀ next, NumberStops front next →
        (takeNumberTail positive significand).Takes front number next := by
  rw [takeNumberTail_eq] at found ⊢
  exact fraction_of_takeRest (bare_pure _) found

private theorem takeWhile_digits {digits rest : Bytes} (all : ∀ byte ∈ digits, isDigit byte = true)
    (stops : rest.head?.any isDigit = false) : (digits ++ rest).takeWhile isDigit = digits := by
  rw [List.takeWhile_append_of_pos all]
  cases rest with
  | nil => exact List.append_nil digits
  | cons byte rest =>
      rw [List.takeWhile_cons_of_neg (by simpa using stops), List.append_nil]

private theorem takes_countDigits {digits : Bytes} {next : Option UInt8}
    (all : ∀ byte ∈ digits, isDigit byte = true) (stops : next.any isDigit = false) :
    countDigits.Takes digits digits.length next := by
  intro rest position head
  obtain ⟨behind, found⟩ := takes_skipWhile all stops rest position head
  have moved := congrArg Prod.snd (Except.ok.inj found)
  subst head
  exact ⟨behind, congrArg Except.ok
    (Prod.ext (congrArg List.length (takeWhile_digits all stops)) moved)⟩

private theorem fraction_of_takeLongNumber {positive : Bool} {significand : Nat}
    {cursor behind : Cursor} {number : Number}
    (found : (takeLongNumber positive significand).run cursor = .ok (number, behind)) :
    ∃ digits front, (∀ byte ∈ digits, isDigit byte = true) ∧
      cursor.rest = digits ++ (front ++ behind.rest) ∧
      (front ++ behind.rest).head?.any isDigit = false ∧
      (∃ middle, Fraction (front ++ behind.rest) middle ∧ Exponent middle behind.rest) ∧
      ∀ next, NumberStops front next →
        (takeLongNumber positive significand).Takes (digits ++ front) number next := by
  rw [takeLongNumber_eq] at found ⊢
  obtain ⟨_, _, moved, found⟩ := run_bind_eq_ok.mp found
  cases moved
  obtain ⟨digits, all, split, stops⟩ := digits_of_skipWhile cursor
  rw [split, takeWhile_digits all stops] at found
  obtain ⟨grammar, front, left, takes⟩ := fraction_of_takeRest (bare_scaled _ _ _) found
  refine ⟨digits, front, all, left ▸ split, left ▸ stops, left ▸ grammar, fun next ends => ?_⟩
  refine Takes.bind (takes_countDigits all ?_) (takes next ends)
  rw [Cursor.head?, left, List.head?_append] at stops
  exact head_or_stops stops ends.digit

/-- A number behind its first digit, which is not zero. -/
def takeLeading (positive : Bool) (first : Nat) : Reader Number := do
  let (significand, _) ← takeDigits greatestSignificand first
  if (← peek).any isDigit then takeLongNumber positive significand
  else takeNumberTail positive significand

private theorem takeUnsigned_eq (positive : Bool) :
    takeUnsigned positive = (do
      let first ← takeByte .endInValue
      if !isDigit first then failHere .number
      else if first = code '0' then
        if (← peek).any isDigit then failNext .number else takeNumberTail positive 0
      else takeLeading positive (digitValue first)) :=
  rfl

private theorem fraction_of_takeLeading {positive : Bool} {first : Nat} {cursor behind : Cursor}
    {number : Number} (found : (takeLeading positive first).run cursor = .ok (number, behind)) :
    ∃ digits front, (∀ byte ∈ digits, isDigit byte = true) ∧
      cursor.rest = digits ++ (front ++ behind.rest) ∧
      (front ++ behind.rest).head?.any isDigit = false ∧
      (∃ middle, Fraction (front ++ behind.rest) middle ∧ Exponent middle behind.rest) ∧
      ∀ next, NumberStops front next →
        (takeLeading positive first).Takes (digits ++ front) number next := by
  unfold takeLeading at found ⊢
  obtain ⟨⟨significand, count⟩, middle, read, found⟩ := run_bind_eq_ok.mp found
  obtain ⟨digits, all, _, split, takes⟩ := digits_of_takeDigits read
  obtain ⟨_, _, moved, found⟩ := run_bind_eq_ok.mp found
  cases moved
  split at found
  · rename_i more
    obtain ⟨others, front, also, left, stops, grammar, tail⟩ := fraction_of_takeLongNumber found
    rw [Cursor.head?, left] at more
    cases others with
    | nil => cases more.symm.trans stops
    | cons byte others =>
        refine ⟨digits ++ byte :: others, front, List.forall_mem_append.mpr ⟨all, also⟩, ?_, stops,
          grammar, fun next ends => ?_⟩
        · rw [split, left, List.append_assoc]
        · rw [List.append_assoc]
          refine Takes.bind (takes _ (.inr ?_))
            (Takes.bind_nothing (takes_peek _) ((tail next ends).if_pos more))
          rw [Cursor.head?, left]
          rfl
  · rename_i stops
    obtain ⟨grammar, front, left, tail⟩ := fraction_of_takeNumberTail found
    have stops := Bool.eq_false_iff.mpr stops
    refine ⟨digits, front, all, left ▸ split, left ▸ stops, left ▸ grammar, fun next ends => ?_⟩
    rw [Cursor.head?, left, List.head?_append] at stops
    have stops := head_or_stops stops ends.digit
    exact Takes.bind (takes _ (.inl stops))
      (Takes.bind_nothing (takes_peek _) ((tail next ends).if_neg (Bool.eq_false_iff.mp stops)))

private theorem whole_of_takeUnsigned {positive : Bool} {cursor behind : Cursor} {number : Number}
    (found : (takeUnsigned positive).run cursor = .ok (number, behind)) :
    (∃ first second, Whole cursor.rest first ∧ Fraction first second ∧
        Exponent second behind.rest) ∧
      ∃ first front, isDigit first = true ∧ cursor.rest = first :: (front ++ behind.rest) ∧
        ∀ next, NumberStops (first :: front) next →
          (takeUnsigned positive).Takes (first :: front) number next := by
  rw [takeUnsigned_eq] at found ⊢
  obtain ⟨first, start, taken, found⟩ := run_bind_eq_ok.mp found
  have begins := rest_takeByte taken
  split at found
  · cases found
  rename_i digit
  split at found
  · rename_i zero
    subst zero
    obtain ⟨_, _, moved, found⟩ := run_bind_eq_ok.mp found
    cases moved
    split at found
    · cases found
    · rename_i stops
      obtain ⟨⟨middle, grammar⟩, front, left, takes⟩ := fraction_of_takeNumberTail found
      have stops := Bool.eq_false_iff.mpr stops
      refine ⟨⟨start.rest, middle, begins ▸ .zero stops, grammar⟩, code '0', front, rfl,
        left ▸ begins, fun next ends => ?_⟩
      replace ends := @NumberStops.of_append [code '0'] front next rfl (by decide) ends
      rw [Cursor.head?, left, List.head?_append] at stops
      have stops := Bool.eq_false_iff.mp (head_or_stops stops ends.digit)
      exact Takes.bind (takes_takeByte _ _ _) ((Takes.if_pos (Takes.bind_nothing (takes_peek _)
        ((takes next ends).if_neg stops)) rfl).if_neg digit)
  · rename_i nonzero
    obtain ⟨digits, front, all, split, stops, ⟨middle, grammar⟩, takes⟩ :=
      fraction_of_takeLeading found
    have leads : isDigit first = true := by simpa using digit
    have all : ∀ byte ∈ first :: digits, isDigit byte = true := by simpa [leads] using all
    refine ⟨⟨front ++ behind.rest, middle, ?_, grammar⟩, first, digits ++ front, leads, ?_,
      fun next ends => ?_⟩
    · rw [begins, split]
      exact .digits nonzero (Digits.of_append (List.cons_ne_nil first digits) all stops)
    · rw [begins, split, List.append_assoc]
    · replace ends := @NumberStops.of_append (first :: digits) front next (digits_unmarked all)
        (digits_pointless all) ends
      exact Takes.bind (takes_takeByte _ first _)
        (((takes next ends).if_neg nonzero).if_neg digit)

/-- What is read as a number is one, and it is the same one wherever a number stops behind it. -/
theorem numeral_of_takeNumber {cursor behind : Cursor} {number : Number}
    (found : takeNumber.run cursor = .ok (number, behind)) :
    Numeral cursor.rest behind.rest ∧ ∃ front, cursor.rest = front ++ behind.rest ∧
      ∀ next, NumberStops front next → takeNumber.Takes front number next := by
  unfold takeNumber at found ⊢
  obtain ⟨_, _, moved, found⟩ := run_bind_eq_ok.mp found
  cases moved
  split at found
  · rename_i minus
    obtain ⟨_, _, moved, found⟩ := run_bind_eq_ok.mp found
    cases moved
    obtain ⟨⟨_, _, whole, fraction, exponent⟩, first, front, _, split, takes⟩ :=
      whole_of_takeUnsigned found
    have begins := rest_of_head? minus
    refine ⟨begins ▸ .negative whole fraction exponent, code '-' :: first :: front,
      begins.trans (congrArg _ split), fun next ends => ?_⟩
    replace ends := @NumberStops.of_append [code '-'] _ next rfl (by decide) ends
    exact Takes.bind_nothing (takes_peek _)
      (Takes.if_pos (Takes.bind (takes_advance _ _) (takes next ends)) rfl)
  · obtain ⟨⟨_, _, whole, fraction, exponent⟩, first, front, digit, split, takes⟩ :=
      whole_of_takeUnsigned found
    refine ⟨.plain whole fraction exponent, first :: front, split, fun next ends => ?_⟩
    refine Takes.bind_nothing (takes_peek _) ((takes next ends).if_neg ?_)
    rintro minus
    cases minus
    cases digit

/-! ## Where numbers stop -/

private theorem mem_of_suffix {byte : UInt8} {front more rest : Bytes}
    (suffix : byte :: more <:+ front ++ rest) (after : rest <:+ more) : byte ∈ front := by
  obtain ⟨before, split⟩ := suffix
  obtain ⟨between, rfl⟩ := after
  have same : before ++ byte :: between = front :=
    List.append_cancel_right (by simpa using split : before ++ byte :: between ++ rest = front ++ rest)
  simp [← same]

/-- Where a number has ended by the grammar, reading it stops. -/
theorem Numeral.stops {front rest : Bytes} (numeral : Numeral (front ++ rest) rest) :
    NumberStops front rest.head? := by
  obtain ⟨first, second, whole, fraction, exponent⟩ := numeral
  have behindWhole : first <:+ front ++ rest := by
    refine (whole.suffix.1.trans (List.tail_suffix _)).trans ?_
    split
    · exact List.tail_suffix _
    · exact List.suffix_refl _
  have behindFraction : second <:+ front ++ rest ∧ second.head?.any isDigit = false := by
    rcases fraction.suffix with ⟨rfl, _⟩ | ⟨more, rfl, after, stops⟩
    · exact ⟨behindWhole, whole.suffix.2⟩
    · exact ⟨(after.trans (List.suffix_cons _ _)).trans behindWhole, stops⟩
  rcases exponent.suffix with ⟨rfl, unmarked⟩ | ⟨mark, more, marks, rfl, after, stops⟩
  · refine ⟨behindFraction.2, fun _ => unmarked, fun _ pointless => ?_⟩
    rcases fraction.suffix with ⟨rfl, other⟩ | ⟨more, rfl, after, _⟩
    · exact other
    · exact absurd (mem_of_suffix behindWhole after) pointless
  · have inside := mem_of_suffix behindFraction.1 after
    have marked (absent : front.any isExponentMark = false) : False :=
      List.any_eq_false.mp absent mark inside marks
    exact ⟨stops, fun absent => (marked absent).elim, fun absent => (marked absent).elim⟩

theorem local_takeNumber : takeNumber.Local := by
  intro cursor behind number found
  obtain ⟨numeral, front, split, takes⟩ := numeral_of_takeNumber found
  exact ⟨front, split, takes _ (Numeral.stops (split ▸ numeral))⟩

end DocumentClient.Json
