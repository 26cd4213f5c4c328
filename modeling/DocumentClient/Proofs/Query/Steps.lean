import DocumentClient.Proofs.Query.Compiled

/-!
# Making queries

What can be said of a query whatever has been asked for so far, which steps are refused then, and
what a step that is taken changes.
-/

set_option autoImplicit false

namespace DocumentClient.Query

variable {state next : State} {step : Step} {steps : List Step} {index : Option String}

/-! ## The steps that can be refused -/

namespace State

private theorem setCollection_eq_ok {name : String} (taken : state.setCollection name = .ok next) :
    ∃ collection, state.target = .dynamic collection ∧
      next = { state with target := .dynamic (some name) } := by
  unfold setCollection at taken
  split at taken
  · cases taken
  · rename_i collection target
    exact ⟨collection, target, (Except.ok.inj taken).symm⟩

private theorem and_eq_ok {field value : String} (taken : state.and field value = .ok next) :
    ∃ predicates, state.predicates = some predicates ∧
      next = { state with predicates := some (predicates.insert field value) } := by
  unfold State.and at taken
  split at taken
  · cases taken
  · rename_i predicates present
    exact ⟨predicates, present, (Except.ok.inj taken).symm⟩

private theorem select_eq_ok {fields : List Field} (taken : state.select fields = .ok next) :
    fields ≠ [] ∧ next = { state with selected := some (fields.map Field.name) } := by
  unfold select at taken
  split at taken
  · cases taken
  · rename_i present
    exact ⟨fun nothing => present (List.isEmpty_iff.mpr nothing), (Except.ok.inj taken).symm⟩

private theorem setCollection_eq_error_iff {name : String} {error : Error} :
    state.setCollection name = .error error ↔
      error = .validation .indexAndCollection ∧ state.indexName? ≠ none := by
  unfold setCollection indexName?
  cases state.target <;> simp [eq_comm]

theorem and_eq_error_iff {field value : String} {error : Error} :
    state.and field value = .error error ↔
      error = .validation .andBeforeFilter ∧ state.predicates = none := by
  unfold State.and
  cases state.predicates <;> simp [eq_comm]

private theorem select_eq_error_iff {fields : List Field} {error : Error} :
    state.select fields = .error error ↔
      error = .validation .noSelectedField ∧ fields = [] := by
  unfold select
  cases fields <;> simp [eq_comm]

end State

/-! ## What a step changes -/

/-- What a step is about. -/
inductive Part where
  | collection
  | predicates
  | selected
  | sortKey
  | skip
  | take
deriving DecidableEq

def Step.part : Step → Part
  | .collection _ => .collection
  | .filter .. | .and .. => .predicates
  | .select _ => .selected
  | .orderBy _ | .orderByDescending _ => .sortKey
  | .skip _ => .skip
  | .take _ => .take

/-- Two queries that differ in one part only. No part is about the index. -/
structure State.AgreesBut (part : Part) (state other : State) : Prop where
  index : other.indexName? = state.indexName?
  collection : part ≠ .collection → other.collection? = state.collection?
  predicates : part ≠ .predicates → other.predicates = state.predicates
  selected : part ≠ .selected → other.selected = state.selected
  sortKey : part ≠ .sortKey → other.sortKey = state.sortKey
  skip : part ≠ .skip → other.skip = state.skip
  take : part ≠ .take → other.take = state.take

/-- What a query asks for behind a step that was taken. -/
def Step.Asked (state next : State) : Step → Prop
  | .collection name => next.collection? = some name
  | .filter field value | .and field value =>
    next.predicates = some ((state.predicates.getD ∅).insert field value)
  | .select fields => fields ≠ [] ∧ next.selected = some (fields.map Field.name)
  | .orderBy field => next.sortKey = some field
  | .orderByDescending field => next.sortKey = some ("-" ++ field)
  | .skip count => next.skip = some count
  | .take count => next.take = some count

theorem agreesBut_of_step (taken : state.step step = .ok next) :
    state.AgreesBut step.part next := by
  cases step with
  | collection name =>
      obtain ⟨collection, target, rfl⟩ := State.setCollection_eq_ok taken
      constructor <;> simp [Step.part, State.indexName?, target]
  | and field value =>
      obtain ⟨predicates, present, rfl⟩ := State.and_eq_ok taken
      constructor <;> simp [Step.part, State.indexName?, State.collection?]
  | select fields =>
      obtain ⟨present, rfl⟩ := State.select_eq_ok taken
      constructor <;> simp [Step.part, State.indexName?, State.collection?]
  | filter | orderBy | orderByDescending | skip | take =>
      cases taken
      constructor <;> simp [Step.part, State.indexName?, State.collection?, State.filter,
        State.orderBy, State.orderByDescending, State.setSkip, State.setTake]

theorem asked_of_step (taken : state.step step = .ok next) : step.Asked state next := by
  cases step with
  | collection name =>
      obtain ⟨collection, target, rfl⟩ := State.setCollection_eq_ok taken
      rfl
  | and field value =>
      obtain ⟨predicates, present, rfl⟩ := State.and_eq_ok taken
      simp only [Step.Asked, present, Option.getD_some]
  | select fields =>
      obtain ⟨present, rfl⟩ := State.select_eq_ok taken
      exact ⟨present, rfl⟩
  | filter | orderBy | orderByDescending | skip | take =>
      cases taken
      rfl

/-! ## Whatever has been asked for -/

theorem steps_append (state : State) (steps later : List Step) :
    state.steps (steps ++ later) = (state.steps steps).steps later :=
  List.foldl_append

theorem steps_cons (state : State) (step : Step) (steps : List Step) :
    state.steps (step :: steps) = (state.steps [step]).steps steps :=
  rfl

theorem steps_of_ok (taken : state.step step = .ok next) : state.steps [step] = next :=
  congrArg (fun result : Except Error State => result.toOption.getD state) taken

theorem steps_of_error {error : Error} (failed : state.step step = .error error) :
    state.steps [step] = state :=
  congrArg (fun result : Except Error State => result.toOption.getD state) failed

/-- What every step that is taken preserves is preserved by any steps. -/
theorem steps_induction {Holds : State → Prop}
    (kept : ∀ {state next step}, Holds state → state.step step = .ok next → Holds next)
    (steps : List Step) (holds : Holds state) : Holds (state.steps steps) := by
  induction steps generalizing state with
  | nil => exact holds
  | cons step steps ih =>
      rw [steps_cons]
      cases taken : state.step step with
      | error error =>
          rw [steps_of_error taken]
          exact ih holds
      | ok next =>
          rw [steps_of_ok taken]
          exact ih (kept holds taken)

/-- A query of an index stays one, without a collection; and whatever has been asked for is not
empty, each field of an equality coming once. -/
structure State.WellFormed (index : Option String) (state : State) : Prop where
  index : state.indexName? = index.filter (· ≠ "")
  named : state.indexName? ≠ some ""
  apart : state.indexName? = none ∨ state.collection? = none
  predicates : ∀ predicates, state.predicates = some predicates →
    predicates.entries ≠ [] ∧ (predicates.entries.map (·.1)).Nodup
  selected : ∀ fields, state.selected = some fields → fields ≠ []

theorem predicates_start (index : Option String) : (State.start index).predicates = none := by
  rw [start_eq]
  cases index.filter (· ≠ "") <;> rfl

private theorem wellFormed_start (index : Option String) :
    (State.start index).WellFormed index := by
  rw [start_eq]
  cases named : index.filter (· ≠ "") with
  | none => exact ⟨named.symm, by simp [State.indexName?], .inl rfl, by simp, by simp⟩
  | some name =>
      have present : name ≠ "" := by simpa using (Option.filter_eq_some_iff.mp named).2
      exact ⟨named.symm, by simpa [State.indexName?] using present, .inr rfl, by simp, by simp⟩

private theorem wellFormed_of_step (wellFormed : state.WellFormed index)
    (taken : state.step step = .ok next) : next.WellFormed index := by
  have inserted (known : TextMap) (field value : String) (predicates : TextMap)
      (same : some (known.insert field value) = some predicates) :
      predicates.entries ≠ [] ∧ (predicates.entries.map (·.1)).Nodup := by
    cases same
    exact ⟨known.entries_insert_ne_nil field value, TextMap.distinct _⟩
  cases step with
  | collection name =>
      obtain ⟨collection, target, rfl⟩ := State.setCollection_eq_ok taken
      have documents : state.indexName? = none := by rw [State.indexName?, target]
      exact ⟨documents.symm.trans wellFormed.index, by simp [State.indexName?], .inl rfl,
        wellFormed.predicates, wellFormed.selected⟩
  | filter field value =>
      cases taken
      exact ⟨wellFormed.index, wellFormed.named, wellFormed.apart, inserted _ field value,
        wellFormed.selected⟩
  | and field value =>
      obtain ⟨predicates, _, rfl⟩ := State.and_eq_ok taken
      exact ⟨wellFormed.index, wellFormed.named, wellFormed.apart, inserted predicates field value,
        wellFormed.selected⟩
  | select fields =>
      obtain ⟨present, rfl⟩ := State.select_eq_ok taken
      refine ⟨wellFormed.index, wellFormed.named, wellFormed.apart, wellFormed.predicates, ?_⟩
      intro names same
      cases same
      simpa using present
  | orderBy | orderByDescending | skip | take =>
      cases taken
      exact ⟨wellFormed.index, wellFormed.named, wellFormed.apart, wellFormed.predicates,
        wellFormed.selected⟩

theorem wellFormed_steps (index : Option String) (steps : List Step) :
    ((State.start index).steps steps).WellFormed index :=
  steps_induction wellFormed_of_step steps (wellFormed_start index)

/-! ## Refused steps -/

theorem predicates_step_eq_none_iff (state : State) (step : Step) :
    (state.steps [step]).predicates = none ↔
      state.predicates = none ∧ ∀ field value, step ≠ .filter field value := by
  cases taken : state.step step with
  | error error =>
      rw [steps_of_error taken]
      refine (and_iff_left ?_).symm
      rintro field value rfl
      cases taken
  | ok next =>
      rw [steps_of_ok taken]
      cases step with
      | filter field value =>
          cases taken
          simp [State.filter]
      | and field value =>
          obtain ⟨predicates, present, rfl⟩ := State.and_eq_ok taken
          simp [present]
      | collection | select | orderBy | orderByDescending | skip | take =>
          simp [(agreesBut_of_step taken).predicates (by simp [Step.part])]

/-- Equalities are asked for from the first filter on. -/
theorem predicates_steps_eq_none_iff (state : State) (steps : List Step) :
    (state.steps steps).predicates = none ↔
      state.predicates = none ∧ ∀ field value, .filter field value ∉ steps := by
  induction steps generalizing state with
  | nil => simp [State.steps]
  | cons step steps ih =>
      rw [steps_cons, ih, predicates_step_eq_none_iff, and_assoc]
      refine and_congr_right fun _ => ?_
      simp only [List.mem_cons, not_or, forall_and, ne_eq, eq_comm]

/-- The steps that a query refuses behind some others, and why. -/
inductive Refused (index : Option String) (before : List Step) : Step → Misuse → Prop where
  | collection {name : String} : index.filter (· ≠ "") ≠ none →
      Refused index before (.collection name) .indexAndCollection
  | and {field value : String} : (∀ name text, .filter name text ∉ before) →
      Refused index before (.and field value) .andBeforeFilter
  | select : Refused index before (.select []) .noSelectedField

private theorem step_eq_error_iff (index : Option String) (before : List Step) (step : Step)
    (error : Error) :
    ((State.start index).steps before).step step = .error error ↔
      ∃ misuse, error = .validation misuse ∧ Refused index before step misuse := by
  have wellFormed := wellFormed_steps index before
  have unasked := predicates_steps_eq_none_iff (State.start index) before
  rw [predicates_start] at unasked
  constructor
  · intro failed
    cases step with
    | collection name =>
        obtain ⟨rfl, indexed⟩ := State.setCollection_eq_error_iff.mp failed
        exact ⟨_, rfl, .collection (wellFormed.index ▸ indexed)⟩
    | and field value =>
        obtain ⟨rfl, nothing⟩ := State.and_eq_error_iff.mp failed
        exact ⟨_, rfl, .and (unasked.mp nothing).2⟩
    | select fields =>
        obtain ⟨rfl, rfl⟩ := State.select_eq_error_iff.mp failed
        exact ⟨_, rfl, .select⟩
    | filter | orderBy | orderByDescending | skip | take => cases failed
  · rintro ⟨misuse, rfl, refused⟩
    cases refused with
    | collection indexed =>
        exact State.setCollection_eq_error_iff.mpr ⟨rfl, wellFormed.index ▸ indexed⟩
    | and missing => exact State.and_eq_error_iff.mpr ⟨rfl, unasked.mpr ⟨rfl, missing⟩⟩
    | select => rfl

/-- Whatever has been asked for, a query is well formed, refuses exactly what makes no sense and
then stays as it is, and changes in nothing but what it was asked for otherwise. -/
theorem steps_keep_form (index : Option String) (before : List Step) (step : Step) :
    let state := (State.start index).steps before
    let next := (State.start index).steps (before ++ [step])
    state.WellFormed index ∧
      (∀ error, state.step step = .error error ↔
        ∃ misuse, error = .validation misuse ∧ Refused index before step misuse) ∧
      (∀ error, state.step step = .error error → next = state) ∧
      (∀ taken, state.step step = .ok taken →
        next = taken ∧ state.AgreesBut step.part next ∧ step.Asked state next) := by
  intro state next
  refine ⟨wellFormed_steps index before, step_eq_error_iff index before step, ?_, ?_⟩
  · intro error failed
    exact (steps_append _ before [step]).trans (steps_of_error failed)
  · intro taken success
    have same : next = taken := (steps_append _ before [step]).trans (steps_of_ok success)
    rw [same]
    exact ⟨rfl, agreesBut_of_step success, asked_of_step success⟩

end DocumentClient.Query
