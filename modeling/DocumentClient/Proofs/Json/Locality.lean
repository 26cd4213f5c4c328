import DocumentClient.Json.Reader

/-!
# What readers look at

A reader that succeeds has taken some bytes off the front. What it hands back depends on these bytes
and on the byte behind them only, which is said of readers one by one: `Local.bind` and its like
carry it from the parts of a reader to the whole. A reader whose end shows in its own bytes does not
even depend on the byte behind them.
-/

set_option autoImplicit false

namespace DocumentClient.Json.Reader

variable {α β : Type} {reader : Reader α} {continuation : α → Reader β}

/-- In front of any bytes that begin with `next`, and at the end if there is no next byte, the reader
takes `front` for this value. -/
def Takes (reader : Reader α) (front : Bytes) (value : α) (next : Option UInt8) : Prop :=
  ∀ (rest : Bytes) (position : Position), rest.head? = next →
    ∃ behind, reader.run ⟨front ++ rest, position⟩ = .ok (value, ⟨rest, behind⟩)

/-- What the reader hands back here is decided by the bytes that it takes and the one behind them. -/
def LocalAt (reader : Reader α) (cursor : Cursor) : Prop :=
  ∀ ⦃behind : Cursor⦄ ⦃value : α⦄, reader.run cursor = .ok (value, behind) →
    ∃ front, cursor.rest = front ++ behind.rest ∧ reader.Takes front value behind.head?

def Local (reader : Reader α) : Prop :=
  ∀ ⦃cursor : Cursor⦄, reader.LocalAt cursor

/-- What the reader hands back is decided by the bytes that it takes alone. -/
def Blind (reader : Reader α) : Prop :=
  ∀ ⦃cursor behind : Cursor⦄ ⦃value : α⦄, reader.run cursor = .ok (value, behind) →
    ∃ front, cursor.rest = front ++ behind.rest ∧ ∀ next, reader.Takes front value next

/-- What the reader hands back is decided by the bytes that it takes, and there are some. -/
def Firm (reader : Reader α) : Prop :=
  ∀ ⦃cursor behind : Cursor⦄ ⦃value : α⦄, reader.run cursor = .ok (value, behind) →
    ∃ front, front ≠ [] ∧ cursor.rest = front ++ behind.rest ∧ ∀ next, reader.Takes front value next

/-- The reader takes nothing, and looks at nothing. -/
def Bare (reader : Reader α) : Prop :=
  ∀ ⦃cursor behind : Cursor⦄ ⦃value : α⦄, reader.run cursor = .ok (value, behind) →
    behind = cursor ∧ ∀ start, reader.run start = .ok (value, start)

/-- The reader does not succeed. -/
def Fails (reader : Reader α) : Prop :=
  ∀ ⦃cursor : Cursor⦄ ⦃result : α × Cursor⦄, reader.run cursor ≠ .ok result

theorem eq_of_run {other : Reader α} (same : ∀ cursor, reader.run cursor = other.run cursor) :
    reader = other := by
  obtain ⟨run, _⟩ := reader
  obtain ⟨also, _⟩ := other
  obtain rfl : run = also := funext same
  rfl

theorem run_bind_pure (reader : Reader α) (change : α → β) (cursor : Cursor) :
    (reader >>= fun value => pure (change value)).run cursor =
      (reader.run cursor).map fun (value, behind) => (change value, behind) := by
  rw [run_bind]
  cases reader.run cursor <;> rfl

theorem run_pure_eq_ok {value last : α} {cursor behind : Cursor} :
    (pure value : Reader α).run cursor = .ok (last, behind) ↔ value = last ∧ cursor = behind := by
  rw [run_pure, Except.ok.injEq, Prod.mk.injEq]

/-! ## Taking -/

theorem Takes.bind {first second : Bytes} {value : α} {last : β} {next : Option UInt8}
    (taken : reader.Takes first value (second.head?.or next))
    (more : (continuation value).Takes second last next) :
    (reader >>= continuation).Takes (first ++ second) last next := by
  intro rest position head
  obtain ⟨middle, found⟩ := taken (second ++ rest) position (by rw [List.head?_append, head])
  obtain ⟨behind, done⟩ := more rest middle head
  refine ⟨behind, run_bind_eq_ok.mpr ⟨value, _, ?_, done⟩⟩
  rwa [List.append_assoc]

/-- The next byte stays the same across a part that takes nothing. -/
theorem Takes.bind_nothing {front : Bytes} {value : α} {last : β} {next : Option UInt8}
    (taken : reader.Takes [] value (front.head?.or next))
    (more : (continuation value).Takes front last next) :
    (reader >>= continuation).Takes front last next :=
  taken.bind more

theorem takes_of_run {value : α} (same : ∀ start, reader.run start = .ok (value, start))
    (next : Option UInt8) : reader.Takes [] value next :=
  fun rest position _ => ⟨position, same ⟨rest, position⟩⟩

theorem takes_pure (value : α) (next : Option UInt8) :
    (pure value : Reader α).Takes [] value next :=
  takes_of_run (fun _ => rfl) next

theorem takes_peek (next : Option UInt8) : peek.Takes [] next next :=
  fun rest position head => ⟨position, by simp [Cursor.head?, head]⟩

theorem takes_advance (byte : UInt8) (next : Option UInt8) : advance.Takes [byte] () next :=
  fun _ _ _ => ⟨_, rfl⟩

theorem Takes.under {front : Bytes} {value : α} {next : Option UInt8}
    (taken : reader.Takes front value next) (step : Step) :
    (reader.under step).Takes front value next := by
  intro rest position head
  obtain ⟨behind, found⟩ := taken rest position head
  exact ⟨behind, run_under_eq_ok.mpr found⟩

theorem Takes.if_pos {front : Bytes} {value : α} {next : Option UInt8} {condition : Prop}
    [Decidable condition] {other : Reader α} (taken : reader.Takes front value next)
    (yes : condition) : (if condition then reader else other).Takes front value next := by
  rwa [ite_cond_eq_true _ _ (eq_true yes)]

theorem Takes.if_neg {front : Bytes} {value : α} {next : Option UInt8} {condition : Prop}
    [Decidable condition] {other : Reader α} (taken : reader.Takes front value next)
    (no : ¬condition) : (if condition then other else reader).Takes front value next := by
  rwa [ite_cond_eq_false _ _ (eq_false no)]

theorem run_skipWhile (holds : UInt8 → Bool) (cursor : Cursor) :
    (skipWhile holds).run cursor = .ok ((), cursor.skipWhile holds) := rfl

theorem rest_skipWhile (holds : UInt8 → Bool) (cursor : Cursor) :
    (cursor.skipWhile holds).rest = cursor.rest.dropWhile holds := by
  obtain ⟨bytes, position⟩ := cursor
  rw [Cursor.skipWhile]
  induction bytes generalizing position with
  | nil => rfl
  | cons byte bytes ih =>
      rw [Cursor.skipFrom, List.dropWhile_cons]
      split
      · exact ih (Cursor.after position byte)
      · rfl

theorem takes_skipWhile {holds : UInt8 → Bool} {front : Bytes} {next : Option UInt8}
    (all : ∀ byte ∈ front, holds byte = true) (stops : next.any holds = false) :
    (skipWhile holds).Takes front () next := by
  intro rest position head
  have left : (front ++ rest).dropWhile holds = rest := by
    rw [List.dropWhile_append_of_pos all]
    cases rest with
    | nil => rfl
    | cons byte rest =>
        subst head
        exact List.dropWhile_cons_of_neg (by simpa using stops)
  refine ⟨(Cursor.skipWhile holds ⟨front ++ rest, position⟩).position, ?_⟩
  rw [run_skipWhile]
  have same := rest_skipWhile holds ⟨front ++ rest, position⟩
  rw [left] at same
  generalize Cursor.skipWhile holds ⟨front ++ rest, position⟩ = behind at same ⊢
  obtain ⟨_, _⟩ := behind
  cases same
  rfl

/-! ## Locality -/

theorem Fails.isLocal (fails : reader.Fails) : reader.Local :=
  fun _ _ _ found => absurd found (@fails _ _)

theorem Fails.firm (fails : reader.Fails) : reader.Firm :=
  fun _ _ _ found => absurd found (@fails _ _)

theorem Fails.blind (fails : reader.Fails) : reader.Blind :=
  fun _ _ _ found => absurd found (@fails _ _)

theorem Firm.blind (firm : reader.Firm) : reader.Blind := by
  intro cursor behind value found
  obtain ⟨front, _, split, takes⟩ := firm found
  exact ⟨front, split, takes⟩

theorem Blind.isLocal (blind : reader.Blind) : reader.Local := by
  intro cursor behind value found
  obtain ⟨front, split, takes⟩ := blind found
  exact ⟨front, split, takes _⟩

theorem Firm.isLocal (firm : reader.Firm) : reader.Local :=
  firm.blind.isLocal

theorem Fails.bare (fails : reader.Fails) : reader.Bare :=
  fun _ _ _ found => absurd found (@fails _ _)

theorem Bare.blind (bare : reader.Bare) : reader.Blind := by
  intro cursor behind value found
  obtain ⟨rfl, same⟩ := bare found
  exact ⟨[], rfl, takes_of_run same⟩

theorem bare_pure (value : α) : (pure value : Reader α).Bare := by
  intro cursor behind last found
  cases found
  exact ⟨rfl, fun _ => rfl⟩

theorem blind_pure (value : α) : (pure value : Reader α).Blind :=
  (bare_pure value).blind

theorem fails_failHere (cause : Cause) : (failHere cause : Reader α).Fails := by
  intro cursor result found
  cases found

theorem fails_failNext (cause : Cause) : (failNext cause : Reader α).Fails := by
  intro cursor result found
  cases found

theorem Fails.of_bind (fails : ∀ value, (continuation value).Fails) :
    (reader >>= continuation).Fails := by
  rintro cursor ⟨last, behind⟩ found
  obtain ⟨value, middle, _, more⟩ := run_bind_eq_ok.mp found
  exact fails value more

theorem local_pure (value : α) : (pure value : Reader α).Local :=
  (blind_pure value).isLocal

theorem local_peek : peek.Local := by
  intro cursor behind value found
  cases found
  exact ⟨[], rfl, takes_peek _⟩

theorem local_advance : advance.Local := by
  intro cursor behind value found
  cases found
  obtain ⟨bytes, position⟩ := cursor
  cases bytes with
  | cons byte bytes => exact ⟨[byte], rfl, takes_advance byte _⟩
  | nil =>
      refine ⟨[], rfl, fun rest position head => ⟨position, ?_⟩⟩
      obtain rfl := List.head?_eq_none_iff.mp head
      rfl

theorem local_skipWhile (holds : UInt8 → Bool) : (skipWhile holds).Local := by
  intro cursor behind value found
  cases found
  refine ⟨cursor.rest.takeWhile holds, ?_, takes_skipWhile ?_ ?_⟩
  · rw [rest_skipWhile, List.takeWhile_append_dropWhile]
  · exact List.all_eq_true.mp List.all_takeWhile
  · rw [Cursor.head?, rest_skipWhile]
    cases left : cursor.rest.dropWhile holds with
    | nil => rfl
    | cons byte rest =>
        have stops := List.head?_dropWhile_not holds cursor.rest
        rw [left] at stops
        simpa using stops

theorem local_skipBlanks : skipBlanks.Local :=
  local_skipWhile isBlank

theorem Local.under (inner : reader.Local) (step : Step) : (reader.under step).Local := by
  intro cursor behind value found
  obtain ⟨front, split, takes⟩ := inner (run_under_eq_ok.mp found)
  exact ⟨front, split, takes.under step⟩

theorem Local.here (isLocal : reader.Local) (cursor : Cursor) : reader.LocalAt cursor :=
  @isLocal cursor

theorem LocalAt.bind {cursor : Cursor} (first : reader.LocalAt cursor)
    (more : ∀ value middle, reader.run cursor = .ok (value, middle) →
      (continuation value).LocalAt middle) : (reader >>= continuation).LocalAt cursor := by
  intro behind last found
  obtain ⟨value, middle, taken, done⟩ := run_bind_eq_ok.mp found
  obtain ⟨front, split, takes⟩ := first taken
  obtain ⟨second, rest, finishes⟩ := more value middle taken done
  refine ⟨front ++ second, by rw [split, rest, List.append_assoc], ?_⟩
  refine Takes.bind ?_ finishes
  rwa [Cursor.head?, rest, List.head?_append] at takes

theorem Local.bind (first : reader.Local) (more : ∀ value, (continuation value).Local) :
    (reader >>= continuation).Local :=
  fun _ => (first.here _).bind fun value middle _ => (more value).here middle

/-- A part that is decided by its own bytes makes the whole so decided. -/
theorem Local.bind_firm (first : reader.Local) (more : ∀ value, (continuation value).Firm) :
    (reader >>= continuation).Firm := by
  intro cursor behind last found
  obtain ⟨value, middle, taken, done⟩ := run_bind_eq_ok.mp found
  obtain ⟨front, split, takes⟩ := first taken
  obtain ⟨second, some, rest, finishes⟩ := more value done
  refine ⟨front ++ second, by simp [some], by rw [split, rest, List.append_assoc], fun next => ?_⟩
  refine Takes.bind ?_ (finishes next)
  obtain ⟨byte, bytes, rfl⟩ := List.exists_cons_of_ne_nil some
  rwa [Cursor.head?, rest] at takes

theorem Blind.bind (first : reader.Blind) (more : ∀ value, (continuation value).Blind) :
    (reader >>= continuation).Blind := by
  intro cursor behind last found
  obtain ⟨value, middle, taken, done⟩ := run_bind_eq_ok.mp found
  obtain ⟨front, split, takes⟩ := first taken
  obtain ⟨second, rest, finishes⟩ := more value done
  exact ⟨front ++ second, by rw [split, rest, List.append_assoc],
    fun next => (takes _).bind (finishes next)⟩

theorem Firm.bind_blind (first : reader.Firm) (more : ∀ value, (continuation value).Blind) :
    (reader >>= continuation).Firm := by
  intro cursor behind last found
  obtain ⟨value, middle, taken, done⟩ := run_bind_eq_ok.mp found
  obtain ⟨front, some, split, takes⟩ := first taken
  obtain ⟨second, rest, finishes⟩ := more value done
  exact ⟨front ++ second, by simp [some], by rw [split, rest, List.append_assoc],
    fun next => (takes _).bind (finishes next)⟩

/-- A closing byte that is known to stand there. -/
theorem Local.bind_closing (first : reader.Local) {finish : α → Reader β}
    (stands : ∀ ⦃cursor behind : Cursor⦄ ⦃value : α⦄, reader.run cursor = .ok (value, behind) →
      ∃ byte, behind.head? = some byte)
    (blind : ∀ value, (finish value).Blind) :
    (reader >>= fun value => advance >>= fun _ => finish value).Firm := by
  intro cursor behind last found
  obtain ⟨value, middle, taken, done⟩ := run_bind_eq_ok.mp found
  obtain ⟨_, closed, moved, done⟩ := run_bind_eq_ok.mp done
  obtain ⟨front, split, takes⟩ := first taken
  obtain ⟨byte, head⟩ := stands taken
  obtain ⟨rest, here⟩ := List.head?_eq_some_iff.mp head
  cases moved
  have left : middle.advance.rest = rest := by rw [Cursor.advance, here]
  obtain ⟨second, more, finishes⟩ := blind value done
  refine ⟨front ++ byte :: second, by simp, ?_, fun next => ?_⟩
  · rw [split, here, ← left, more, List.append_assoc, List.cons_append]
  · rw [head] at takes
    exact Takes.bind takes ((takes_advance byte _).bind (finishes next))

theorem takes_takeByte (atEnd : Cause) (byte : UInt8) (next : Option UInt8) :
    (takeByte atEnd).Takes [byte] byte next :=
  (takes_peek _).bind_nothing ((takes_advance byte _).bind (takes_pure byte next))

theorem firm_takeByte (atEnd : Cause) : (takeByte atEnd).Firm := by
  intro cursor behind value found
  unfold takeByte at found
  rw [run_bind, run_peek] at found
  simp only at found
  split at found
  · cases found
  · rename_i byte head
    cases found
    obtain ⟨rest, here⟩ := List.head?_eq_some_iff.mp head
    exact ⟨[value], by simp, by rw [Cursor.advance, here]; rfl, takes_takeByte atEnd value⟩

theorem local_ite {condition : Prop} [Decidable condition] {other : Reader α}
    (yes : reader.Local) (no : other.Local) : (if condition then reader else other).Local := by
  split
  · exact yes
  · exact no

theorem firm_ite {condition : Prop} [Decidable condition] {other : Reader α}
    (yes : reader.Firm) (no : other.Firm) : (if condition then reader else other).Firm := by
  split
  · exact yes
  · exact no

end DocumentClient.Json.Reader
