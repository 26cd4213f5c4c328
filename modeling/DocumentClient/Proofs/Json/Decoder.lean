import DocumentClient.Proofs.Json.Skip

/-!
# Readers of values

A reader of values takes the value that stands at the front by the grammar, and it takes the same
from any other bytes in which this value stands at the front, no matter what comes behind. So a part
of a text is read as it would be read alone. Main statements: `Lawful.alone`, and `Lawful` for every
decoder but those of records.
-/

set_option autoImplicit false

namespace DocumentClient.Json

open Reader

variable {α β : Type} {reader : Reader α}

/-- What was taken is a value, and wherever this value comes first it is taken again. -/
def Reader.Settles (reader : Reader α) (cursor : Cursor) (value : α) (behind : Cursor) : Prop :=
  Stands .value (afterBlanks cursor.rest) behind.rest ∧
    ∀ front, cursor.rest = front ++ behind.rest → ∀ rest, rest = [] ∨ FirstValue front rest →
      ∀ position, ∃ last, reader.run ⟨front ++ rest, position⟩ = .ok (value, ⟨rest, last⟩)

structure Reader.Lawful (reader : Reader α) : Prop where
  isLocal : reader.Local
  settles : ∀ ⦃cursor behind : Cursor⦄ ⦃value : α⦄, reader.run cursor = .ok (value, behind) →
    reader.Settles cursor value behind

theorem length_lt_of_stands {bytes rest : Bytes} (stands : Stands .value (afterBlanks bytes) rest) :
    rest.length < bytes.length :=
  Nat.lt_of_lt_of_le stands.length_lt (length_afterBlanks_le bytes)

theorem Reader.Firm.settles (firm : reader.Firm) {cursor behind : Cursor} {value : α}
    (found : reader.run cursor = .ok (value, behind))
    (stands : Stands .value (afterBlanks cursor.rest) behind.rest) :
    reader.Settles cursor value behind := by
  refine ⟨stands, fun front split rest _ position => ?_⟩
  obtain ⟨taken, _, left, takes⟩ := firm found
  obtain rfl := List.append_cancel_right (left.symm.trans split)
  exact takes rest.head? rest position rfl

theorem Reader.Firm.lawful (firm : reader.Firm)
    (stands : ∀ ⦃cursor behind : Cursor⦄ ⦃value : α⦄, reader.run cursor = .ok (value, behind) →
      Stands .value (afterBlanks cursor.rest) behind.rest) : reader.Lawful :=
  ⟨firm.isLocal, fun _ _ _ found => firm.settles found (stands found)⟩

/-- What one reader makes of a value another one may make of it too, as long as it can tell by the
first byte that it should. -/
theorem Reader.Settles.carry {other : Reader β} {cursor behind : Cursor} {value : α} {last : β}
    (settles : reader.Settles cursor value behind)
    (carried : ∀ start finish : Cursor, start.head? = cursor.head? →
      reader.run start = .ok (value, finish) → other.run start = .ok (last, finish)) :
    other.Settles cursor last behind := by
  refine ⟨settles.1, fun front split rest follows position => ?_⟩
  obtain ⟨finish, done⟩ := settles.2 front split rest follows position
  refine ⟨finish, carried _ _ ?_ done⟩
  have shorter := length_lt_of_stands settles.1
  cases front with
  | nil =>
      rw [split] at shorter
      exact absurd shorter (Nat.lt_irrefl _)
  | cons byte front =>
      rw [Cursor.head?, Cursor.head?, split]
      rfl

private theorem afterBlanks_append {blanks : Bytes} (all : ∀ byte ∈ blanks, isBlank byte = true)
    (bytes : Bytes) : afterBlanks (blanks ++ bytes) = afterBlanks bytes :=
  List.dropWhile_append_of_pos all

/-- Blanks in front of a value do not matter. -/
theorem Reader.Lawful.behindBlanks (isLocal : reader.Local)
    (settles : ∀ ⦃cursor behind : Cursor⦄ ⦃value : α⦄, cursor.head?.any isBlank = false →
      reader.run cursor = .ok (value, behind) → reader.Settles cursor value behind) :
    (skipBlanks >>= fun _ => reader).Lawful := by
  refine ⟨local_skipBlanks.bind fun _ => isLocal, fun cursor behind value found => ?_⟩
  obtain ⟨_, middle, blanks, found⟩ := run_bind_eq_ok.mp found
  have begins := rest_skipBlanks blanks
  have stays : middle.head?.any isBlank = false := by
    rw [Cursor.head?, begins]
    exact head_afterBlanks cursor.rest
  obtain ⟨stands, again⟩ := settles stays found
  obtain ⟨second, left, _⟩ := isLocal found
  rw [begins, afterBlanks_afterBlanks] at stands
  refine ⟨stands, fun front split rest follows position => ?_⟩
  let skipped := cursor.rest.takeWhile isBlank
  have all : ∀ byte ∈ skipped, isBlank byte = true := List.all_eq_true.mp List.all_takeWhile
  have whole : cursor.rest = skipped ++ (second ++ behind.rest) := by
    rw [← left, begins]
    exact List.takeWhile_append_dropWhile.symm
  obtain rfl : skipped ++ second = front :=
    List.append_cancel_right ((List.append_assoc ..).trans (whole.symm.trans split))
  have some : second.head?.or rest.head? = middle.head? := by
    cases second with
    | nil =>
        have shorter := stands.length_lt
        rw [← begins, left] at shorter
        exact absurd shorter (Nat.lt_irrefl _)
    | cons byte second =>
        rw [Cursor.head?, left]
        rfl
  rw [← some, ← List.head?_append] at stays
  obtain ⟨start, moved⟩ := takes_skipWhile all stays (second ++ rest) position rfl
  have follows : rest = [] ∨ FirstValue second rest := by
    refine follows.imp_right fun first => ?_
    rwa [FirstValue, List.append_assoc, afterBlanks_append all] at first
  obtain ⟨last, done⟩ := again second left rest follows start
  rw [List.append_assoc]
  exact ⟨last, run_bind_eq_ok.mpr ⟨(), _, moved, done⟩⟩

theorem Reader.Lawful.map (lawful : reader.Lawful) (change : α → β) :
    (change <$> reader).Lawful := by
  have mapped : change <$> reader = reader >>= fun value => pure (change value) := rfl
  rw [mapped]
  refine ⟨lawful.isLocal.bind fun _ => local_pure _, fun cursor behind last found => ?_⟩
  obtain ⟨value, middle, taken, found⟩ := run_bind_eq_ok.mp found
  obtain ⟨rfl, rfl⟩ := run_pure_eq_ok.mp found
  exact (lawful.settles taken).carry fun start finish _ done =>
    run_bind_eq_ok.mpr ⟨value, finish, done, rfl⟩

/-! ## A part alone -/

/-- A value is read in front of some other bytes as it is read alone. -/
theorem Reader.Lawful.alone (lawful : reader.Lawful) {front rest : Bytes}
    (first : FirstValue front rest) (position other : Position) (value : α) :
    (∃ behind, reader.run ⟨front, position⟩ = .ok (value, behind)) ↔
      ∃ last, reader.run ⟨front ++ rest, other⟩ = .ok (value, ⟨rest, last⟩) := by
  constructor
  · rintro ⟨⟨left, last⟩, found⟩
    obtain ⟨taken, split, takes⟩ := lawful.isLocal found
    replace split : front = taken ++ left := split
    cases left with
    | nil =>
        obtain rfl : front = taken := split.trans (List.append_nil taken)
        exact (lawful.settles found).2 front split rest (.inr first) other
    | cons byte left =>
        obtain ⟨between, done⟩ := takes (byte :: left ++ rest) other rfl
        rw [← List.append_assoc, ← split] at done
        have same := (lawful.settles done).1.unique first
        have shorter := congrArg List.length same
        simp only [List.cons_append, List.length_cons, List.length_append] at shorter
        omega
  · rintro ⟨last, found⟩
    obtain ⟨behind, done⟩ := (lawful.settles found).2 front rfl [] (.inl rfl) position
    rw [List.append_nil] at done
    exact ⟨_, done⟩

/-! ## Scalars -/

theorem fails_mismatch (wanted : String) : (mismatch wanted : Reader α).Fails :=
  Fails.of_bind fun _ => fails_failHere _

private theorem firm_word (char : Char) (chars : List Char) (value : α) :
    (do advance; takeLiteral (char :: chars); return value : Reader α).Firm :=
  local_advance.bind_firm fun _ => (firm_takeLiteral char chars).bind_blind fun _ => blind_pure value

theorem Scalar.of_word {word : String} {char : Char} {chars : List Char} {byte : UInt8}
    {cursor behind : Cursor} {value found : α} (head : cursor.head? = some byte)
    (known : word ∈ ["null", "true", "false"]) (spelled : utf8 word = byte :: (char :: chars).map code)
    (taken : (do advance; takeLiteral (char :: chars); return value : Reader α).run cursor =
      .ok (found, behind)) :
    Scalar cursor.rest behind.rest := by
  obtain ⟨_, _, moved, taken⟩ := run_bind_eq_ok.mp taken
  obtain ⟨_, _, literal, taken⟩ := run_bind_eq_ok.mp taken
  obtain ⟨_, rfl⟩ := run_pure_eq_ok.mp taken
  exact .of_literal head known spelled (run_bind_eq_ok.mpr ⟨_, _, moved, literal⟩)

private theorem firm_quotedText : (advance >>= fun _ => takeText).Firm :=
  local_advance.bind_firm fun _ => firm_takeText

theorem Scalar.of_quotedText {cursor behind : Cursor} {text : String}
    (head : cursor.head? = some (code '"'))
    (taken : (advance >>= fun _ => takeText).run cursor = .ok (text, behind)) :
    Scalar cursor.rest behind.rest := by
  obtain ⟨_, _, moved, taken⟩ := run_bind_eq_ok.mp taken
  cases moved
  rw [rest_of_head? head]
  exact .text (quoted_of_takeText taken).1

private theorem afterBlanks_of_scalar {bytes rest : Bytes} (scalar : Scalar bytes rest) :
    afterBlanks bytes = bytes := by
  obtain ⟨byte, more, rfl, starts, _⟩ := scalar.head
  have plain := byte_all (fun byte => !startsValue byte || !isBlank byte) (by decide +kernel) byte
  exact afterBlanks_of_head (by simpa [starts] using plain)

theorem Scalar.stands {bytes rest : Bytes} (scalar : Scalar bytes rest) :
    Stands .value (afterBlanks bytes) rest :=
  (afterBlanks_of_scalar scalar).symm ▸ .scalar scalar

/-- What begins like a number is one. -/
theorem Numeral.of_stands {byte : UInt8} {bytes rest : Bytes} (starts : startsNumber byte = true)
    (stands : Stands .value (byte :: bytes) rest) : Numeral (byte :: bytes) rest := by
  generalize same : byte :: bytes = whole at stands
  cases stands with
  | scalar scalar =>
      cases scalar with
      | word known =>
          obtain ⟨_, _, begins, other, _⟩ := head_of_word known
          rw [begins] at same
          rw [(List.cons.inj same).1, other] at starts
          cases starts
      | number numeral => exact numeral
      | text =>
          rw [(List.cons.inj same).1] at starts
          exact absurd starts (by decide)
  | empty | filled =>
      rename Frame => frame
      rw [(List.cons.inj same).1] at starts
      exact absurd starts (by cases frame <;> decide)

private theorem settles_takeNumber {cursor behind : Cursor} {number : Number}
    (found : takeNumber.run cursor = .ok (number, behind)) :
    takeNumber.Settles cursor number behind := by
  obtain ⟨numeral, taken, split, takes⟩ := numeral_of_takeNumber found
  refine ⟨(Scalar.number numeral).stands, fun front left rest follows position => ?_⟩
  obtain rfl := List.append_cancel_right (split.symm.trans left)
  refine takes rest.head? ?_ rest position rfl
  rcases follows with rfl | first
  · exact ⟨rfl, fun _ => rfl, fun _ _ => by simp⟩
  · obtain ⟨byte, more, begins, starts⟩ := numeral.head
    cases taken with
    | nil =>
        have shorter := numeral.length_lt
        rw [split] at shorter
        exact absurd shorter (Nat.lt_irrefl _)
    | cons other taken =>
        obtain ⟨rfl, _⟩ := List.cons.inj (split.symm.trans begins)
        have plain := byte_all (fun byte => !startsNumber byte || !isBlank byte) (by decide +kernel) other
        rw [FirstValue, afterBlanks_of_head (by simpa [starts] using plain)] at first
        exact (Numeral.of_stands starts first).stops

/-- The scalar that begins with this byte. -/
def scalarFrom (byte : UInt8) : Reader Value :=
  if byte = code 'n' then do
    advance
    takeLiteral "ull".toList
    return .null
  else if byte = code 't' then do
    advance
    takeLiteral "rue".toList
    return .bool true
  else if byte = code 'f' then do
    advance
    takeLiteral "alse".toList
    return .bool false
  else if startsNumber byte then return (← takeNumber).value
  else if byte = code '"' then do
    advance
    return .text (← takeText)
  else failNext .value

private theorem run_takeScalar {cursor : Cursor} {byte : UInt8} (head : cursor.head? = some byte) :
    takeScalar.run cursor = (scalarFrom byte).run cursor := by
  unfold takeScalar
  rw [run_bind, run_peek, head]
  rfl

private theorem local_scalarFrom (byte : UInt8) : (scalarFrom byte).Local :=
  local_ite (firm_word _ _ _).isLocal (local_ite (firm_word _ _ _).isLocal
    (local_ite (firm_word _ _ _).isLocal (local_ite
      (local_takeNumber.bind fun _ => local_pure _) (local_ite
        (local_advance.bind fun _ => firm_takeText.isLocal.bind fun _ => local_pure _)
        (fails_failNext _).isLocal))))

private theorem settles_scalarFrom {cursor behind : Cursor} {byte : UInt8} {value : Value}
    (head : cursor.head? = some byte)
    (found : (scalarFrom byte).run cursor = .ok (value, behind)) :
    (scalarFrom byte).Settles cursor value behind := by
  have word {char : Char} {chars : List Char} {value found : Value} {word : String}
      (known : word ∈ ["null", "true", "false"]) (spelled : utf8 word = byte :: (char :: chars).map code)
      (taken : (do advance; takeLiteral (char :: chars); return value : Reader Value).run cursor =
        .ok (found, behind)) :
      (do advance; takeLiteral (char :: chars); return value : Reader Value).Settles cursor found
        behind :=
    (firm_word char chars value).settles taken (Scalar.of_word head known spelled taken).stands
  unfold scalarFrom at found ⊢
  split at found
  · rename_i letter
    rw [if_pos letter]
    exact word (by simp) (letter ▸ rfl : utf8 "null" = _) found
  rename_i notNull
  rw [if_neg notNull]
  split at found
  · rename_i letter
    rw [if_pos letter]
    exact word (by simp) (letter ▸ rfl : utf8 "true" = _) found
  rename_i notTrue
  rw [if_neg notTrue]
  split at found
  · rename_i letter
    rw [if_pos letter]
    exact word (by simp) (letter ▸ rfl : utf8 "false" = _) found
  rename_i notFalse
  rw [if_neg notFalse]
  split at found
  · rename_i starts
    rw [if_pos starts]
    obtain ⟨number, last, taken, found⟩ := run_bind_eq_ok.mp found
    obtain ⟨rfl, rfl⟩ := run_pure_eq_ok.mp found
    exact (settles_takeNumber taken).carry fun start finish _ done =>
      run_bind_eq_ok.mpr ⟨number, finish, done, rfl⟩
  rename_i notNumber
  rw [if_neg notNumber]
  split at found
  · rename_i quote
    rw [if_pos quote]
    obtain ⟨_, _, moved, found⟩ := run_bind_eq_ok.mp found
    obtain ⟨text, last, taken, found⟩ := run_bind_eq_ok.mp found
    obtain ⟨rfl, rfl⟩ := run_pure_eq_ok.mp found
    have taken : (advance >>= fun _ => takeText).run cursor = .ok (text, last) :=
      run_bind_eq_ok.mpr ⟨_, _, moved, taken⟩
    refine (firm_quotedText.settles taken
      (Scalar.of_quotedText (quote ▸ head) taken).stands).carry fun start finish _ done => ?_
    obtain ⟨_, _, moved, done⟩ := run_bind_eq_ok.mp done
    exact run_bind_eq_ok.mpr ⟨_, _, moved, run_bind_eq_ok.mpr ⟨text, finish, done, rfl⟩⟩
  · cases found

theorem local_takeScalar : takeScalar.Local := by
  refine local_peek.bind fun next => ?_
  cases next with
  | none => exact (fails_failNext _).isLocal
  | some byte => exact local_scalarFrom byte

theorem settles_takeScalar {cursor behind : Cursor} {value : Value}
    (found : takeScalar.run cursor = .ok (value, behind)) :
    takeScalar.Settles cursor value behind := by
  cases head : cursor.head? with
  | none =>
      unfold takeScalar at found
      rw [run_bind, run_peek, head] at found
      cases found
  | some byte =>
      rw [run_takeScalar head] at found
      refine (settles_scalarFrom head found).carry fun start finish same done => ?_
      rwa [run_takeScalar (same.trans head)]

/-! ## Texts, truth values and integers -/

theorem lawful_text (levels : Nat) : (text levels).Lawful := by
  have firm : (text levels).Firm :=
    local_skipBlanks.bind_firm fun _ => local_peek.bind_firm fun _ =>
      firm_ite firm_quotedText (fails_mismatch _).firm
  refine firm.lawful fun cursor behind value found => ?_
  obtain ⟨start, begins, found⟩ := run_blanks_peek found
  split at found
  · rename_i quote
    rw [← begins]
    exact .scalar (.of_quotedText quote found)
  · exact absurd found (@fails_mismatch _ _ _ _)

theorem lawful_bool (levels : Nat) : (bool levels).Lawful := by
  have firm : (bool levels).Firm :=
    local_skipBlanks.bind_firm fun _ => local_peek.bind_firm fun _ =>
      firm_ite (firm_word _ _ _) (firm_ite (firm_word _ _ _) (fails_mismatch _).firm)
  refine firm.lawful fun cursor behind value found => ?_
  obtain ⟨start, begins, found⟩ := run_blanks_peek found
  rw [← begins]
  split at found
  · rename_i letter
    exact .scalar (.of_word letter (by simp) (rfl : utf8 "true" = _) found)
  split at found
  · rename_i letter
    exact .scalar (.of_word letter (by simp) (rfl : utf8 "false" = _) found)
  · exact absurd found (@fails_mismatch _ _ _ _)

/-- The integer that a number is, if it is one in range. -/
def inRange (bits : Nat) (wanted : String) : Number → Reader Nat
  | .real bits => failHere (.wrongType (.real bits) wanted)
  | .integer value =>
    if 0 ≤ value ∧ value.toNat < Nat.pow 2 bits then return value.toNat
    else failHere (.wrongValue (.integer value) wanted)

private theorem unsigned_eq (bits : Nat) (wanted : String) (levels : Nat) :
    unsigned bits wanted levels = (do
      skipBlanks
      if !(← peek).any startsNumber then mismatch wanted
      else inRange bits wanted (← takeNumber)) :=
  rfl

private theorem bare_inRange (bits : Nat) (wanted : String) (number : Number) :
    (inRange bits wanted number).Bare := by
  unfold inRange
  split
  · exact (fails_failHere _).bare
  · split
    · exact bare_pure _
    · exact (fails_failHere _).bare

theorem lawful_unsigned (bits : Nat) (wanted : String) (levels : Nat) :
    (unsigned bits wanted levels).Lawful := by
  rw [unsigned_eq]
  refine Lawful.behindBlanks (local_peek.bind fun _ => local_ite (fails_mismatch wanted).isLocal
    (local_takeNumber.bind fun number => (bare_inRange bits wanted number).blind.isLocal))
      fun cursor behind value _ found => ?_
  rw [run_bind, run_peek] at found
  dsimp only at found
  split at found
  · exact absurd found (@fails_mismatch _ _ _ _)
  · rename_i starts
    obtain ⟨number, last, taken, found⟩ := run_bind_eq_ok.mp found
    obtain ⟨rfl, same⟩ := bare_inRange bits wanted number found
    refine (settles_takeNumber taken).carry fun start finish head done => ?_
    rw [run_bind, run_peek, head]
    dsimp only
    rw [if_neg starts]
    exact run_bind_eq_ok.mpr ⟨number, finish, done, same finish⟩

theorem lawful_optional {decoder : Decoder α} {levels : Nat} (lawful : (decoder levels).Lawful) :
    (optional decoder levels).Lawful := by
  refine Lawful.behindBlanks (local_peek.bind fun _ => local_ite (firm_word _ _ _).isLocal
    (lawful.isLocal.bind fun _ => local_pure _)) fun cursor behind value stays found => ?_
  rw [run_bind, run_peek] at found
  dsimp only at found
  split at found
  · rename_i letter
    refine ((firm_word _ _ _).settles found
      (Scalar.stands (.of_word letter (by simp) (rfl : utf8 "null" = _) found))).carry
        fun start finish head done => ?_
    rw [run_bind, run_peek, head]
    dsimp only
    rwa [if_pos letter]
  · rename_i other
    refine ((lawful.map some).settles found).carry fun start finish head done => ?_
    rw [run_bind, run_peek, head]
    dsimp only
    rwa [if_neg other]

/-! ## Brackets -/

/-- A reader of what stands between two brackets. The closing one is not taken. -/
structure ReadsContent (frame : Frame) (reader : Reader α) : Prop where
  isLocal : reader.Local
  content : ∀ ⦃cursor behind : Cursor⦄ ⦃value : α⦄, reader.run cursor = .ok (value, behind) →
    ∃ rest, behind.rest = frame.closing :: rest ∧ Content frame cursor.rest rest

variable {frame : Frame} {finish : α → Reader β}

theorem ReadsContent.firm (reads : ReadsContent frame reader) (bare : ∀ value, (finish value).Bare) :
    (reader >>= fun value => advance >>= fun _ => finish value).Firm := by
  refine reads.isLocal.bind_closing (fun cursor behind value found => ?_) fun value =>
    (bare value).blind
  obtain ⟨rest, ends, _⟩ := reads.content found
  exact ⟨frame.closing, by rw [Cursor.head?, ends]; rfl⟩

theorem ReadsContent.closed (reads : ReadsContent frame reader)
    (bare : ∀ value, (finish value).Bare) {cursor behind : Cursor} {value : β}
    (found : (reader >>= fun value => advance >>= fun _ => finish value).run cursor =
      .ok (value, behind)) : Content frame cursor.rest behind.rest := by
  obtain ⟨values, last, taken, found⟩ := run_bind_eq_ok.mp found
  obtain ⟨_, _, moved, found⟩ := run_bind_eq_ok.mp found
  cases moved
  obtain ⟨rfl, _⟩ := bare values found
  obtain ⟨rest, ends, content⟩ := reads.content taken
  rwa [Cursor.advance, ends]

/-! ## Lists -/

theorem local_enter (levels : Nat) : (enter levels).Local := by
  cases levels with
  | zero => exact (fails_failNext _).isLocal
  | succ levels => exact local_advance.bind fun _ => local_pure levels

theorem rest_enter {levels inner : Nat} {cursor behind : Cursor} {byte : UInt8}
    (head : cursor.head? = some byte) (found : (enter levels).run cursor = .ok (inner, behind)) :
    cursor.rest = byte :: behind.rest := by
  cases levels with
  | zero => cases found
  | succ levels =>
      cases found
      exact rest_of_head? head

theorem local_firstItem : firstItem.Local := by
  refine local_skipBlanks.bind fun _ => local_peek.bind fun next => ?_
  cases next with
  | none => exact (fails_failNext _).isLocal
  | some byte => exact local_pure _

theorem local_nextItem : nextItem.Local := by
  refine local_skipBlanks.bind fun _ => local_peek.bind fun next => ?_
  cases next with
  | none => exact (fails_failNext _).isLocal
  | some byte =>
      refine local_ite (local_pure _) (local_ite (fails_failNext _).isLocal
        (local_advance.bind fun _ => local_skipBlanks.bind fun _ => local_peek.bind fun after => ?_))
      cases after with
      | none => exact (fails_failNext _).isLocal
      | some byte => exact local_ite (fails_failNext _).isLocal (local_pure _)

theorem rest_firstItem {cursor behind : Cursor} {more : Bool}
    (found : firstItem.run cursor = .ok (more, behind)) :
    behind.rest = afterBlanks cursor.rest ∧ (more = false → behind.head? = some (code ']')) := by
  obtain ⟨start, begins, found⟩ := run_blanks_peek found
  split at found
  · cases found
  · rename_i byte head
    cases found
    exact ⟨begins, fun closing => by rw [head]; simpa using closing⟩

/-- Behind an item either the list ends or there is a comma and another item. -/
theorem rest_nextItem {cursor behind : Cursor} {more : Bool}
    (found : nextItem.run cursor = .ok (more, behind)) :
    if more then ∃ next, afterBlanks cursor.rest = code ',' :: next ∧ behind.rest = afterBlanks next
    else behind.rest = afterBlanks cursor.rest ∧ behind.head? = some (code ']') := by
  obtain ⟨start, begins, found⟩ := run_blanks_peek found
  split at found
  · cases found
  rename_i byte head
  split at found
  · rename_i closing
    cases found
    exact ⟨begins, closing ▸ head⟩
  split at found
  · cases found
  rename_i comma
  obtain ⟨_, _, moved, found⟩ := run_bind_eq_ok.mp found
  cases moved
  obtain ⟨_, next, further, found⟩ := run_bind_eq_ok.mp found
  rw [run_bind, run_peek] at found
  dsimp only at found
  split at found
  · cases found
  split at found
  · cases found
  · cases found
    refine ⟨_, ?_, rest_skipBlanks further⟩
    rw [← begins, rest_of_head? head, Decidable.not_not.mp comma]

/-- The items behind an item, and the closing bracket behind them. -/
def moreItems (item : Reader α) (index : Nat) : Reader (List α) :=
  ⟨itemsFrom item index, size_itemsFrom_le⟩

theorem moreItems_eq (item : Reader α) (index : Nat) :
    moreItems item index = (do
      if ← nextItem then
        let value ← item.under (.item index)
        let others ← moreItems item (index + 1)
        return value :: others
      else return []) := by
  refine eq_of_run fun cursor => ?_
  show itemsFrom item index cursor = _
  rw [itemsFrom, run_bind]
  split
  · rename_i failed
    rw [failed]
  · rename_i ended
    rw [ended]
    rfl
  · rename_i next
    rw [next]
    dsimp only
    rw [if_pos rfl, run_bind]
    split
    · rename_i failed
      rw [failed]
    · rename_i value middle taken
      rw [taken]
      exact (run_bind_pure (moreItems item (index + 1)) (value :: ·) middle).symm

private theorem local_moreItems {item : Reader α} (isLocal : item.Local) (index : Nat) :
    (moreItems item index).Local := by
  intro cursor
  induction size : cursor.size using Nat.strongRecOn generalizing cursor index with
  | ind size ih =>
      subst size
      rw [moreItems_eq]
      refine (local_nextItem.here cursor).bind fun more start next => ?_
      cases more with
      | false => exact (local_pure []).here start
      | true =>
          refine ((isLocal.under _).here start).bind fun value middle taken => ?_
          have smaller : middle.size < cursor.size :=
            Nat.lt_of_le_of_lt ((item.under _).size_le taken) (size_nextItem_lt next)
          exact (ih _ smaller _ rfl).bind fun others last _ => (local_pure _).here last

private theorem behind_of_moreItems {item : Reader α} (lawful : item.Lawful) {index : Nat}
    {cursor behind : Cursor} {values : List α}
    (found : (moreItems item index).run cursor = .ok (values, behind)) :
    ∃ rest, behind.rest = code ']' :: rest ∧ Stands (.behind .list) cursor.rest rest := by
  induction size : cursor.size using Nat.strongRecOn generalizing cursor index values with
  | ind size ih =>
      subst size
      rw [moreItems_eq] at found
      obtain ⟨more, start, next, found⟩ := run_bind_eq_ok.mp found
      have leads := rest_nextItem next
      cases more with
      | false =>
          obtain ⟨_, rfl⟩ := run_pure_eq_ok.mp found
          obtain ⟨same, closing⟩ := leads
          have ends := rest_of_head? closing
          exact ⟨_, ends, .last (same.symm.trans ends)⟩
      | true =>
          obtain ⟨value, middle, taken, found⟩ := run_bind_eq_ok.mp found
          obtain ⟨others, last, further, found⟩ := run_bind_eq_ok.mp found
          obtain ⟨_, rfl⟩ := run_pure_eq_ok.mp found
          have smaller : middle.size < cursor.size :=
            Nat.lt_of_le_of_lt ((item.under _).size_le taken) (size_nextItem_lt next)
          obtain ⟨rest, ends, stands⟩ := ih _ smaller further rfl
          obtain ⟨after, comma, same⟩ := leads
          have first := (lawful.settles (run_under_eq_ok.mp taken)).1
          rw [same, afterBlanks_afterBlanks] at first
          exact ⟨rest, ends, .more comma (.entry .item first stands)⟩

private theorem takeItems_eq (item : Reader α) :
    takeItems item = (do
      if ← firstItem then
        let first ← item.under (.item 0)
        let more ← moreItems item 1
        return first :: more
      else return []) :=
  rfl

theorem Reader.Lawful.readsItems {item : Reader α} (lawful : item.Lawful) :
    ReadsContent .list (takeItems item) := by
  rw [takeItems_eq]
  refine ⟨local_firstItem.bind fun _ => local_ite ((lawful.isLocal.under _).bind fun _ =>
    (local_moreItems lawful.isLocal 1).bind fun _ => local_pure _) (local_pure []),
      fun cursor behind values found => ?_⟩
  obtain ⟨more, start, next, found⟩ := run_bind_eq_ok.mp found
  obtain ⟨same, closing⟩ := rest_firstItem next
  cases more with
  | false =>
      obtain ⟨_, rfl⟩ := run_pure_eq_ok.mp found
      have ends := rest_of_head? (closing rfl)
      exact ⟨_, ends, .inl (same.symm.trans ends)⟩
  | true =>
      obtain ⟨value, middle, taken, found⟩ := run_bind_eq_ok.mp found
      obtain ⟨others, last, further, found⟩ := run_bind_eq_ok.mp found
      obtain ⟨_, rfl⟩ := run_pure_eq_ok.mp found
      obtain ⟨rest, ends, stands⟩ := behind_of_moreItems lawful further
      have first := (lawful.settles (run_under_eq_ok.mp taken)).1
      rw [same, afterBlanks_afterBlanks] at first
      exact ⟨rest, ends, .inr (.entry .item first stands)⟩

theorem lawful_list {decoder : Decoder α} (lawful : ∀ levels, (decoder levels).Lawful)
    (levels : Nat) : (list decoder levels).Lawful := by
  have firm : (list decoder levels).Firm :=
    local_skipBlanks.bind_firm fun _ => local_peek.bind_firm fun _ =>
      firm_ite ((local_enter levels).bind_firm fun inner => (lawful inner).readsItems.firm bare_pure)
        (fails_mismatch _).firm
  refine firm.lawful fun cursor behind value found => ?_
  obtain ⟨start, begins, found⟩ := run_blanks_peek found
  split at found
  · rename_i opens
    obtain ⟨inner, middle, entered, found⟩ := run_bind_eq_ok.mp found
    rw [← begins, rest_enter opens entered]
    exact ((lawful inner).readsItems.closed bare_pure found).stands
  · exact absurd found (@fails_mismatch _ _ _ _)

/-! ## Whole bodies -/

private theorem takeEnd_iff {cursor : Cursor} :
    (∃ behind, takeEnd.run cursor = .ok ((), behind)) ↔ afterBlanks cursor.rest = [] := by
  constructor
  · rintro ⟨behind, found⟩
    obtain ⟨start, begins, found⟩ := run_blanks_peek found
    rw [← begins]
    split at found
    · cases found
    · rename_i ended
      exact List.head?_eq_none_iff.mp (Option.not_isSome_iff_eq_none.mp ended)
  · intro ended
    refine ⟨cursor.skipWhile isBlank,
      run_bind_eq_ok.mpr ⟨(), _, run_skipWhile isBlank cursor, ?_⟩⟩
    rw [run_bind, run_peek, Cursor.head?, rest_skipWhile]
    rw [afterBlanks] at ended
    rw [ended]
    rfl

theorem whole_iff {decoder : Decoder α} {levels : Nat} {cursor : Cursor} {value : α} :
    (∃ behind, (whole decoder levels).run cursor = .ok (value, behind)) ↔
      ∃ behind, (decoder levels).run cursor = .ok (value, behind) ∧ afterBlanks behind.rest = [] := by
  constructor
  · rintro ⟨last, found⟩
    obtain ⟨_, behind, taken, found⟩ := run_bind_eq_ok.mp found
    obtain ⟨_, _, ended, found⟩ := run_bind_eq_ok.mp found
    obtain ⟨rfl, rfl⟩ := run_pure_eq_ok.mp found
    exact ⟨behind, taken, takeEnd_iff.mp ⟨_, ended⟩⟩
  · rintro ⟨behind, taken, ended⟩
    obtain ⟨last, finished⟩ := takeEnd_iff.mpr ended
    exact ⟨last, run_bind_eq_ok.mpr ⟨value, behind, taken,
      run_bind_eq_ok.mpr ⟨(), last, finished, rfl⟩⟩⟩

end DocumentClient.Json
