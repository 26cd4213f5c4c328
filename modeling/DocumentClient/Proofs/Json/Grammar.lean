import DocumentClient.Json.Decoder

/-!
# The grammar of JSON

Which bytes are a JSON value, apart from any reader. Every relation here is about some bytes and what
is left of them, so that `Stands .value bytes rest` says that a value stands at the front of `bytes`
with `rest` behind it. Numbers go on for as long as they can, and of the characters of a text only
those below the space are refused. Main statement: `Stands.unique`, there is one value at most at the
front of some bytes.
-/

set_option autoImplicit false

namespace DocumentClient.Json

def afterBlanks (bytes : Bytes) : Bytes :=
  bytes.dropWhile Reader.isBlank

/-! ## Texts -/

def escapeLetters : Bytes :=
  "\"\\/bfnrt".toList.map code

def hexDigits : Bytes :=
  "0123456789abcdefABCDEF".toList.map code

/-- The inside of a text, up to its closing quote. -/
inductive Quoted : Bytes → Bytes → Prop where
  | close {rest} : Quoted (code '"' :: rest) rest
  | plain {byte bytes rest} : byte ≠ code '"' → byte ≠ code '\\' → 0x20 ≤ byte →
      Quoted bytes rest → Quoted (byte :: bytes) rest
  | letter {letter bytes rest} : letter ∈ escapeLetters →
      Quoted bytes rest → Quoted (code '\\' :: letter :: bytes) rest
  | number {a b c d bytes rest} : (∀ digit ∈ [a, b, c, d], digit ∈ hexDigits) →
      Quoted bytes rest → Quoted (code '\\' :: code 'u' :: a :: b :: c :: d :: bytes) rest

/-! ## Numbers -/

/-- One digit or more, as many as there are. -/
def Digits (bytes rest : Bytes) : Prop :=
  bytes.head?.any isDigit = true ∧ rest = bytes.dropWhile isDigit

/-- Zero, or digits that do not begin with a zero. -/
def Whole (bytes rest : Bytes) : Prop :=
  if bytes.head? = some (code '0') then rest = bytes.tail ∧ rest.head?.any isDigit = false
  else Digits bytes rest

def Fraction (bytes rest : Bytes) : Prop :=
  if bytes.head? = some (code '.') then Digits bytes.tail rest else rest = bytes

def Exponent (bytes rest : Bytes) : Prop :=
  if bytes.head?.any isExponentMark then
    Digits (if bytes.tail.head?.any isSign then bytes.tail.tail else bytes.tail) rest
  else rest = bytes

def Numeral (bytes rest : Bytes) : Prop :=
  ∃ behindWhole behindFraction,
    Whole (if bytes.head? = some (code '-') then bytes.tail else bytes) behindWhole ∧
      Fraction behindWhole behindFraction ∧ Exponent behindFraction rest

/-! ## Values -/

/-- A value without parts. -/
inductive Scalar : Bytes → Bytes → Prop where
  | word {word rest} : word ∈ ["null", "true", "false"] → Scalar (utf8 word ++ rest) rest
  | number {bytes rest} : Numeral bytes rest → Scalar bytes rest
  | text {bytes rest} : Quoted bytes rest → Scalar (code '"' :: bytes) rest

/-- What stands in front of a value inside a list or an object: in an object that is a name. -/
inductive Entry : Frame → Bytes → Bytes → Prop where
  | item {bytes} : Entry .list bytes bytes
  | member {bytes name behind rest} : afterBlanks bytes = code '"' :: name → Quoted name behind →
      afterBlanks behind = code ':' :: rest → Entry .object bytes rest

/-- A whole value, what follows the opening of a list or an object that is not empty, and what
follows a value inside one, both up to its end. -/
inductive Part where
  | value
  | inside (frame : Frame)
  | behind (frame : Frame)

inductive Stands : Part → Bytes → Bytes → Prop where
  | scalar {bytes rest} : Scalar bytes rest → Stands .value bytes rest
  | empty {frame : Frame} {bytes rest} : afterBlanks bytes = frame.closing :: rest →
      Stands .value (frame.opening :: bytes) rest
  | filled {frame : Frame} {bytes rest} : Stands (.inside frame) bytes rest →
      Stands .value (frame.opening :: bytes) rest
  | entry {frame : Frame} {bytes value behind rest} : Entry frame bytes value →
      Stands .value (afterBlanks value) behind → Stands (.behind frame) behind rest →
      Stands (.inside frame) bytes rest
  | last {frame : Frame} {bytes rest} : afterBlanks bytes = frame.closing :: rest →
      Stands (.behind frame) bytes rest
  | more {frame : Frame} {bytes next rest} : afterBlanks bytes = code ',' :: next →
      Stands (.inside frame) next rest → Stands (.behind frame) bytes rest

/-- What follows the opening of a list or an object, up to its end. -/
def Content (frame : Frame) (bytes rest : Bytes) : Prop :=
  afterBlanks bytes = frame.closing :: rest ∨ Stands (.inside frame) bytes rest

/-- All the bytes are one value, perhaps with blanks around it. -/
def IsText (bytes : Bytes) : Prop :=
  ∃ rest, Stands .value (afterBlanks bytes) rest ∧ afterBlanks rest = []

/-- The first value in these bytes ends where `rest` begins. -/
def FirstValue (front rest : Bytes) : Prop :=
  Stands .value (afterBlanks (front ++ rest)) rest

variable {bytes rest other : Bytes} {frame : Frame}

/-! ## Blanks -/

theorem afterBlanks_of_head (stays : bytes.head?.any Reader.isBlank = false) :
    afterBlanks bytes = bytes := by
  cases bytes with
  | nil => rfl
  | cons byte bytes => exact List.dropWhile_cons_of_neg (by simpa using stays)

theorem head_afterBlanks (bytes : Bytes) :
    (afterBlanks bytes).head?.any Reader.isBlank = false := by
  have stays := List.head?_dropWhile_not Reader.isBlank bytes
  unfold afterBlanks
  cases head : (bytes.dropWhile Reader.isBlank).head? with
  | none => rfl
  | some byte => simpa [head] using stays

@[simp] theorem afterBlanks_afterBlanks (bytes : Bytes) :
    afterBlanks (afterBlanks bytes) = afterBlanks bytes :=
  afterBlanks_of_head (head_afterBlanks bytes)

/-- Blanks in front of what a list or an object holds do not matter. -/
theorem Stands.inside_of_afterBlanks (stands : Stands (.inside frame) (afterBlanks bytes) rest) :
    Stands (.inside frame) bytes rest := by
  generalize same : afterBlanks bytes = start at stands
  cases stands with
  | entry entry stands behind =>
      cases entry with
      | item =>
          rw [← same, afterBlanks_afterBlanks] at stands
          exact .entry .item stands behind
      | member opens quoted colon =>
          rw [← same, afterBlanks_afterBlanks] at opens
          exact .entry (.member opens quoted colon) stands behind

theorem Content.stands (content : Content frame bytes rest) :
    Stands .value (frame.opening :: bytes) rest := by
  rcases content with closes | inside
  · exact .empty closes
  · exact .filled inside

/-! ## Parts of a number -/

theorem Digits.of_append {digits : Bytes} (some : digits ≠ [])
    (all : ∀ byte ∈ digits, isDigit byte = true) (stops : rest.head?.any isDigit = false) :
    Digits (digits ++ rest) rest := by
  obtain ⟨byte, more, rfl⟩ := List.exists_cons_of_ne_nil some
  refine ⟨by simpa using all byte (by simp), ?_⟩
  rw [List.dropWhile_append_of_pos all]
  cases rest with
  | nil => rfl
  | cons byte rest => exact (List.dropWhile_cons_of_neg (by simpa using stops)).symm

theorem Whole.zero (stops : rest.head?.any isDigit = false) : Whole (code '0' :: rest) rest :=
  (if_pos rfl).mpr ⟨rfl, stops⟩

theorem Whole.digits {first : UInt8} (nonzero : first ≠ code '0') (digits : Digits (first :: bytes) rest) :
    Whole (first :: bytes) rest :=
  (if_neg fun zero => nonzero (Option.some.inj zero)).mpr digits

theorem Fraction.present (digits : Digits bytes rest) : Fraction (code '.' :: bytes) rest :=
  (if_pos rfl).mpr digits

theorem Fraction.absent (other : bytes.head? ≠ some (code '.')) : Fraction bytes bytes :=
  (if_neg other).mpr rfl

theorem Exponent.signed {mark sign : UInt8} (marks : isExponentMark mark = true)
    (signs : isSign sign = true) (digits : Digits bytes rest) :
    Exponent (mark :: sign :: bytes) rest := by
  rw [Exponent, if_pos (show (mark :: sign :: bytes).head?.any isExponentMark = true from marks),
    List.tail_cons, if_pos (show (sign :: bytes).head?.any isSign = true from signs)]
  exact digits

theorem Exponent.plain {mark : UInt8} (marks : isExponentMark mark = true)
    (unsigned : bytes.head?.any isSign = false) (digits : Digits bytes rest) :
    Exponent (mark :: bytes) rest := by
  rw [Exponent, if_pos (show (mark :: bytes).head?.any isExponentMark = true from marks),
    List.tail_cons, if_neg (Bool.eq_false_iff.mp unsigned)]
  exact digits

theorem Exponent.absent (other : bytes.head?.any isExponentMark = false) : Exponent bytes bytes :=
  (if_neg (Bool.eq_false_iff.mp other)).mpr rfl

/-! ## Where a value begins -/

theorem Digits.head (digits : Digits bytes rest) :
    ∃ byte more, bytes = byte :: more ∧ isDigit byte = true := by
  obtain ⟨first, _⟩ := digits
  cases bytes with
  | nil => cases first
  | cons byte more => exact ⟨byte, more, rfl, first⟩

theorem Whole.head (whole : Whole bytes rest) :
    ∃ byte more, bytes = byte :: more ∧ isDigit byte = true := by
  unfold Whole at whole
  split at whole
  · rename_i zero
    obtain ⟨more, rfl⟩ := List.head?_eq_some_iff.mp zero
    exact ⟨_, more, rfl, by decide⟩
  · exact whole.head

theorem Numeral.negative {first second : Bytes} (whole : Whole bytes first)
    (fraction : Fraction first second) (exponent : Exponent second rest) :
    Numeral (code '-' :: bytes) rest :=
  ⟨first, second, by rwa [if_pos (List.head?_cons ..)], fraction, exponent⟩

theorem Numeral.plain {first second : Bytes} (whole : Whole bytes first)
    (fraction : Fraction first second) (exponent : Exponent second rest) : Numeral bytes rest := by
  obtain ⟨byte, more, rfl, digit⟩ := whole.head
  refine ⟨first, second, ?_, fraction, exponent⟩
  rwa [if_neg]
  rintro minus
  cases minus
  cases digit

theorem Numeral.head (numeral : Numeral bytes rest) :
    ∃ byte more, bytes = byte :: more ∧ startsNumber byte = true := by
  obtain ⟨_, _, whole, _⟩ := numeral
  split at whole
  · rename_i minus
    obtain ⟨more, rfl⟩ := List.head?_eq_some_iff.mp minus
    exact ⟨_, more, rfl, by decide⟩
  · obtain ⟨byte, more, rfl, digit⟩ := whole.head
    exact ⟨byte, more, rfl, by simp [startsNumber, digit]⟩

theorem head_of_word {word : String} (known : word ∈ ["null", "true", "false"]) :
    ∃ byte more, utf8 word = byte :: more ∧ startsNumber byte = false ∧ byte ≠ code '"' := by
  simp only [List.mem_cons, List.not_mem_nil, or_false] at known
  obtain rfl | rfl | rfl := known <;> exact ⟨_, _, rfl, by decide, by decide⟩

def startsValue (byte : UInt8) : Bool :=
  startsNumber byte || "ntf\"[\x7b".toList.any (code · == byte)

theorem Scalar.head (scalar : Scalar bytes rest) :
    ∃ byte more, bytes = byte :: more ∧ startsValue byte = true ∧
      ∀ frame : Frame, byte ≠ frame.opening := by
  cases scalar with
  | word known =>
      simp only [List.mem_cons, List.not_mem_nil, or_false] at known
      obtain rfl | rfl | rfl := known <;> exact ⟨_, _, rfl, by decide, by rintro (_ | _) <;> decide⟩
  | number numeral =>
      obtain ⟨byte, more, rfl, starts⟩ := numeral.head
      refine ⟨byte, more, rfl, by simp [startsValue, starts], ?_⟩
      rintro frame rfl
      revert starts
      cases frame <;> decide
  | text => exact ⟨_, _, rfl, by decide, by rintro (_ | _) <;> decide⟩

theorem Stands.head (stands : Stands .value bytes rest) :
    ∃ byte more, bytes = byte :: more ∧ startsValue byte = true := by
  cases stands with
  | scalar scalar =>
      obtain ⟨byte, more, rfl, starts, _⟩ := scalar.head
      exact ⟨byte, more, rfl, starts⟩
  | empty | filled =>
      rename Frame => frame
      exact ⟨_, _, rfl, by cases frame <;> decide⟩

/-! ## What is left -/

theorem Digits.suffix (digits : Digits bytes rest) :
    rest <:+ bytes.tail ∧ rest.head?.any isDigit = false := by
  obtain ⟨byte, more, rfl, digit⟩ := digits.head
  obtain ⟨_, rfl⟩ := digits
  rw [List.dropWhile_cons_of_pos digit]
  refine ⟨List.dropWhile_suffix isDigit, ?_⟩
  have stops := List.head?_dropWhile_not isDigit more
  cases head : (more.dropWhile isDigit).head? with
  | none => rfl
  | some byte => simpa [head] using stops

theorem Whole.suffix (whole : Whole bytes rest) :
    rest <:+ bytes.tail ∧ rest.head?.any isDigit = false := by
  unfold Whole at whole
  split at whole
  · obtain ⟨rfl, stops⟩ := whole
    exact ⟨List.suffix_refl _, stops⟩
  · exact whole.suffix

theorem Fraction.suffix (fraction : Fraction bytes rest) :
    (rest = bytes ∧ bytes.head? ≠ some (code '.')) ∨
      ∃ more, bytes = code '.' :: more ∧ rest <:+ more ∧ rest.head?.any isDigit = false := by
  unfold Fraction at fraction
  split at fraction
  · rename_i pointed
    obtain ⟨more, rfl⟩ := List.head?_eq_some_iff.mp pointed
    exact .inr ⟨more, rfl, fraction.suffix.1.trans (List.tail_suffix _), fraction.suffix.2⟩
  · rename_i pointless
    exact .inl ⟨fraction, pointless⟩

theorem Exponent.suffix (exponent : Exponent bytes rest) :
    (rest = bytes ∧ bytes.head?.any isExponentMark = false) ∨
      ∃ mark more, isExponentMark mark = true ∧ bytes = mark :: more ∧ rest <:+ more ∧
        rest.head?.any isDigit = false := by
  unfold Exponent at exponent
  split at exponent
  · rename_i marked
    cases bytes with
    | nil => cases marked
    | cons mark more =>
        refine .inr ⟨mark, more, marked, rfl,
          (exponent.suffix.1.trans (List.tail_suffix _)).trans ?_, exponent.suffix.2⟩
        split
        · exact List.tail_suffix more
        · exact List.suffix_refl more
  · rename_i unmarked
    exact .inl ⟨exponent, Bool.eq_false_iff.mpr unmarked⟩

theorem Quoted.suffix (quoted : Quoted bytes rest) : rest <:+ bytes := by
  induction quoted with
  | close => exact List.suffix_cons _ _
  | plain _ _ _ _ ih => exact ih.trans (List.suffix_cons _ _)
  | letter _ _ ih => exact ih.trans ⟨[_, _], rfl⟩
  | number _ _ ih => exact ih.trans ⟨[_, _, _, _, _, _], rfl⟩

theorem Numeral.suffix (numeral : Numeral bytes rest) : rest <:+ bytes := by
  obtain ⟨first, second, whole, fraction, exponent⟩ := numeral
  have unsigned : first <:+ bytes := by
    refine (whole.suffix.1.trans (List.tail_suffix _)).trans ?_
    split
    · exact List.tail_suffix bytes
    · exact List.suffix_refl bytes
  have behindFraction : second <:+ first := by
    rcases fraction.suffix with ⟨rfl, _⟩ | ⟨more, rfl, after, _⟩
    · exact List.suffix_refl _
    · exact after.trans (List.suffix_cons _ _)
  rcases exponent.suffix with ⟨rfl, _⟩ | ⟨mark, more, _, rfl, after, _⟩
  · exact behindFraction.trans unsigned
  · exact (after.trans (List.suffix_cons _ _)).trans (behindFraction.trans unsigned)

theorem Scalar.suffix (scalar : Scalar bytes rest) : rest <:+ bytes := by
  cases scalar with
  | word _ => exact List.suffix_append _ _
  | number numeral => exact numeral.suffix
  | text quoted => exact quoted.suffix.trans (List.suffix_cons _ _)

private theorem afterBlanks_suffix (bytes : Bytes) : afterBlanks bytes <:+ bytes :=
  List.dropWhile_suffix Reader.isBlank

private theorem suffix_of_afterBlanks {byte : UInt8} (begins : afterBlanks bytes = byte :: rest) :
    rest <:+ bytes :=
  (List.suffix_cons byte rest).trans (begins ▸ afterBlanks_suffix bytes)

theorem Entry.suffix {value : Bytes} (entry : Entry frame bytes value) : value <:+ bytes := by
  cases entry with
  | item => exact List.suffix_refl bytes
  | member opens quoted colon =>
      exact ((suffix_of_afterBlanks colon).trans quoted.suffix).trans (suffix_of_afterBlanks opens)

theorem Stands.suffix {part : Part} (stands : Stands part bytes rest) : rest <:+ bytes := by
  induction stands with
  | scalar scalar => exact scalar.suffix
  | empty closes => exact (suffix_of_afterBlanks closes).trans (List.suffix_cons _ _)
  | filled _ ih => exact ih.trans (List.suffix_cons _ _)
  | entry entry _ _ valueIH behindIH =>
      exact ((behindIH.trans valueIH).trans (afterBlanks_suffix _)).trans entry.suffix
  | last closes => exact suffix_of_afterBlanks closes
  | more comma _ ih => exact ih.trans (suffix_of_afterBlanks comma)

theorem Quoted.length_lt (quoted : Quoted bytes rest) : rest.length < bytes.length := by
  induction quoted with
  | close => simp
  | plain _ _ _ _ ih | letter _ _ ih | number _ _ ih =>
      simp only [List.length_cons]
      omega

theorem Whole.length_lt (whole : Whole bytes rest) : rest.length < bytes.length := by
  obtain ⟨byte, more, rfl, _⟩ := whole.head
  exact Nat.lt_succ_of_le whole.suffix.1.length_le

theorem Fraction.length_le (fraction : Fraction bytes rest) : rest.length ≤ bytes.length := by
  rcases fraction.suffix with ⟨rfl, _⟩ | ⟨more, rfl, suffix, _⟩
  · exact Nat.le_refl _
  · exact Nat.le_succ_of_le suffix.length_le

theorem Exponent.length_le (exponent : Exponent bytes rest) : rest.length ≤ bytes.length := by
  rcases exponent.suffix with ⟨rfl, _⟩ | ⟨mark, more, _, rfl, suffix, _⟩
  · exact Nat.le_refl _
  · exact Nat.le_succ_of_le suffix.length_le

theorem Numeral.length_lt (numeral : Numeral bytes rest) : rest.length < bytes.length := by
  obtain ⟨first, second, whole, fraction, exponent⟩ := numeral
  have := fraction.length_le
  have := exponent.length_le
  split at whole
  · have := whole.length_lt
    have := bytes.length_tail
    omega
  · have := whole.length_lt
    omega

theorem Scalar.length_lt (scalar : Scalar bytes rest) : rest.length < bytes.length := by
  cases scalar with
  | word known =>
      obtain ⟨byte, more, begins, _⟩ := head_of_word known
      rw [begins, List.length_append, List.length_cons]
      omega
  | number numeral => exact numeral.length_lt
  | text quoted => exact Nat.lt_succ_of_lt quoted.length_lt

theorem length_afterBlanks_le (bytes : Bytes) : (afterBlanks bytes).length ≤ bytes.length :=
  (afterBlanks_suffix bytes).length_le

theorem length_lt_of_afterBlanks {byte : UInt8} (begins : afterBlanks bytes = byte :: rest) :
    rest.length < bytes.length := by
  have := length_afterBlanks_le bytes
  rw [begins] at this
  exact this

theorem Entry.length_le {value : Bytes} (entry : Entry frame bytes value) :
    value.length ≤ bytes.length := by
  cases entry with
  | item => exact Nat.le_refl _
  | member opens quoted colon =>
      have := length_lt_of_afterBlanks opens
      have := quoted.length_lt
      have := length_lt_of_afterBlanks colon
      omega

/-- A value takes at least one byte, and so does the end of a list or an object. -/
theorem Stands.length_lt {part : Part} (stands : Stands part bytes rest) :
    rest.length < bytes.length := by
  induction stands with
  | scalar scalar => exact scalar.length_lt
  | empty closes => exact Nat.lt_succ_of_lt (length_lt_of_afterBlanks closes)
  | filled _ ih => exact Nat.lt_succ_of_lt ih
  | @entry _ _ value _ _ entry _ _ valueIH behindIH =>
      have := entry.length_le
      have := length_afterBlanks_le value
      omega
  | last closes => exact length_lt_of_afterBlanks closes
  | more comma _ ih => exact Nat.lt_trans ih (length_lt_of_afterBlanks comma)

/-! ## One value at most -/

theorem Quoted.unique (first : Quoted bytes rest) (second : Quoted bytes other) :
    other = rest := by
  induction first with
  | close =>
      generalize same : code '"' :: _ = whole at second
      cases second with
      | close => exact ((List.cons.inj same).2).symm
      | plain notQuote => exact absurd (List.cons.inj same).1.symm notQuote
      | letter | number => exact absurd (List.cons.inj same).1 (by decide)
  | @plain byte bytes rest notQuote notBackslash _ _ ih =>
      generalize same : byte :: bytes = whole at second
      cases second with
      | close => exact absurd (List.cons.inj same).1 notQuote
      | plain _ _ _ more => exact ih ((List.cons.inj same).2 ▸ more)
      | letter | number => exact absurd (List.cons.inj same).1 notBackslash
  | @letter letter bytes rest known _ ih =>
      generalize same : code '\\' :: letter :: bytes = whole at second
      cases second with
      | close => exact absurd (List.cons.inj same).1 (by decide)
      | plain _ notBackslash => exact absurd (List.cons.inj same).1.symm notBackslash
      | letter _ more => exact ih ((List.cons.inj (List.cons.inj same).2).2 ▸ more)
      | number =>
          rw [(List.cons.inj (List.cons.inj same).2).1] at known
          exact absurd known (by decide)
  | @number a b c d bytes rest _ _ ih =>
      generalize same : code '\\' :: code 'u' :: a :: b :: c :: d :: bytes = whole at second
      cases second with
      | close => exact absurd (List.cons.inj same).1 (by decide)
      | plain _ notBackslash => exact absurd (List.cons.inj same).1.symm notBackslash
      | letter known =>
          rw [← (List.cons.inj (List.cons.inj same).2).1] at known
          exact absurd known (by decide)
      | number _ more =>
          simp only [List.cons.injEq] at same
          exact ih (same.2.2.2.2.2.2 ▸ more)

theorem Digits.unique (first : Digits bytes rest) (second : Digits bytes other) : other = rest :=
  second.2.trans first.2.symm

theorem Whole.unique (first : Whole bytes rest) (second : Whole bytes other) : other = rest := by
  unfold Whole at first second
  split at first
  · rename_i zero
    rw [if_pos zero] at second
    exact second.1.trans first.1.symm
  · rename_i nonzero
    rw [if_neg nonzero] at second
    exact first.unique second

theorem Fraction.unique (first : Fraction bytes rest) (second : Fraction bytes other) :
    other = rest := by
  unfold Fraction at first second
  split at first
  · rename_i point
    rw [if_pos point] at second
    exact first.unique second
  · rename_i absent
    rw [if_neg absent] at second
    exact second.trans first.symm

theorem Exponent.unique (first : Exponent bytes rest) (second : Exponent bytes other) :
    other = rest := by
  unfold Exponent at first second
  split at first
  · rename_i mark
    rw [if_pos mark] at second
    exact first.unique second
  · rename_i absent
    rw [if_neg absent] at second
    exact second.trans first.symm

theorem Numeral.unique (first : Numeral bytes rest) (second : Numeral bytes other) :
    other = rest := by
  obtain ⟨behindWhole, behindFraction, whole, fraction, exponent⟩ := first
  obtain ⟨otherWhole, otherFraction, sameWhole, sameFraction, sameExponent⟩ := second
  obtain rfl := whole.unique sameWhole
  obtain rfl := fraction.unique sameFraction
  exact exponent.unique sameExponent

private theorem word_of_append {first second : String} (known : first ∈ ["null", "true", "false"])
    (also : second ∈ ["null", "true", "false"]) (same : utf8 first ++ rest = utf8 second ++ other) :
    second = first := by
  have apart : ∀ first ∈ ["null", "true", "false"], ∀ second ∈ ["null", "true", "false"],
      (utf8 first).head? = (utf8 second).head? → second = first := by
    decide
  obtain ⟨byte, more, begins, _⟩ := head_of_word known
  obtain ⟨byteOther, moreOther, beginsOther, _⟩ := head_of_word also
  rw [begins, beginsOther] at same
  obtain ⟨rfl, _⟩ := List.cons.inj same
  exact apart first known second also (by rw [begins, beginsOther]; rfl)

theorem Scalar.unique (first : Scalar bytes rest) (second : Scalar bytes other) :
    other = rest := by
  cases first with
  | @word word rest known =>
      obtain ⟨byte, more, begins, notNumber, notQuote⟩ := head_of_word known
      generalize same : utf8 word ++ rest = whole at second
      cases second with
      | word also =>
          obtain rfl := word_of_append known also same
          exact (List.append_cancel_left same).symm
      | number numeral =>
          obtain ⟨_, _, rfl, starts⟩ := numeral.head
          rw [begins] at same
          rw [← (List.cons.inj same).1, notNumber] at starts
          cases starts
      | text =>
          rw [begins] at same
          exact absurd (List.cons.inj same).1 notQuote
  | number numeral =>
      obtain ⟨byte, more, rfl, starts⟩ := numeral.head
      generalize same : byte :: more = whole at second
      cases second with
      | word also =>
          obtain ⟨_, _, begins, notNumber, _⟩ := head_of_word also
          rw [begins] at same
          rw [(List.cons.inj same).1, notNumber] at starts
          cases starts
      | number another => exact numeral.unique (same ▸ another)
      | text =>
          rw [(List.cons.inj same).1] at starts
          exact absurd starts (by decide)
  | @text bytes rest quoted =>
      generalize same : code '"' :: bytes = whole at second
      cases second with
      | word also =>
          obtain ⟨_, _, begins, _, notQuote⟩ := head_of_word also
          rw [begins] at same
          exact absurd (List.cons.inj same).1.symm notQuote
      | number numeral =>
          obtain ⟨_, _, rfl, starts⟩ := numeral.head
          rw [← (List.cons.inj same).1] at starts
          exact absurd starts (by decide)
      | text another => exact quoted.unique ((List.cons.inj same).2 ▸ another)

theorem Entry.unique (first : Entry frame bytes rest) (second : Entry frame bytes other) :
    other = rest := by
  cases first with
  | item =>
      cases second
      rfl
  | member opens quoted colon =>
      cases second with
      | member alsoOpens alsoQuoted alsoColon =>
          obtain ⟨_, rfl⟩ := List.cons.inj (opens.symm.trans alsoOpens)
          obtain rfl := quoted.unique alsoQuoted
          exact (List.cons.inj (alsoColon.symm.trans colon)).2

theorem Frame.opening_inj {other : Frame} (same : frame.opening = other.opening) :
    other = frame := by
  revert same
  cases frame <;> cases other <;> decide

/-- A list or an object that ends at once has nothing inside. -/
theorem Entry.not_closing {value : Bytes} (entry : Entry frame bytes value)
    (stands : Stands .value (afterBlanks value) rest)
    (closes : afterBlanks bytes = frame.closing :: other) : False := by
  cases entry with
  | item =>
      obtain ⟨byte, more, same, starts⟩ := stands.head
      obtain ⟨rfl, _⟩ := List.cons.inj (same.symm.trans closes)
      exact absurd starts (by decide)
  | member opens => exact absurd (List.cons.inj (opens.symm.trans closes)).1 (by decide)

/-- What begins with a bracket is a list or an object. -/
theorem Stands.content (stands : Stands .value (frame.opening :: bytes) rest) :
    Content frame bytes rest := by
  generalize same : frame.opening :: bytes = whole at stands
  cases stands with
  | scalar scalar =>
      obtain ⟨byte, more, rfl, _, differs⟩ := scalar.head
      exact absurd (List.cons.inj same).1.symm (differs _)
  | empty closes =>
      obtain ⟨opening, rfl⟩ := List.cons.inj same
      obtain rfl := Frame.opening_inj opening
      exact .inl closes
  | filled inside =>
      obtain ⟨opening, rfl⟩ := List.cons.inj same
      obtain rfl := Frame.opening_inj opening
      exact .inr inside

theorem Stands.unique {part : Part} (first : Stands part bytes rest)
    (second : Stands part bytes other) : other = rest := by
  induction first generalizing other with
  | scalar scalar =>
      cases second with
      | scalar another => exact scalar.unique another
      | empty | filled =>
          obtain ⟨byte, more, same, _, differs⟩ := scalar.head
          exact absurd (List.cons.inj same).1.symm (differs _)
  | empty closes =>
      rcases second.content with also | inside
      · exact (List.cons.inj (also.symm.trans closes)).2
      · cases inside with
        | entry entry stands _ => exact (entry.not_closing stands closes).elim
  | filled filled ih =>
      rcases second.content with closes | inside
      · cases filled with
        | entry entry stands _ => exact (entry.not_closing stands closes).elim
      · exact ih inside
  | entry entry _ _ valueIH behindIH =>
      cases second with
      | entry another stands behind =>
          obtain rfl := entry.unique another
          obtain rfl := valueIH stands
          exact behindIH behind
  | last closes =>
      cases second with
      | last also => exact (List.cons.inj (also.symm.trans closes)).2
      | more comma =>
          rename Frame => frame
          have same := (List.cons.inj (comma.symm.trans closes)).1
          exact absurd same (by cases frame <;> decide)
  | more comma _ ih =>
      cases second with
      | last closes =>
          rename Frame => frame
          have same := (List.cons.inj (comma.symm.trans closes)).1
          exact absurd same (by cases frame <;> decide)
      | more also more =>
          obtain ⟨_, rfl⟩ := List.cons.inj (comma.symm.trans also)
          exact ih more

end DocumentClient.Json
