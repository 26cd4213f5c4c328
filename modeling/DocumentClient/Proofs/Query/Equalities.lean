import DocumentClient.Proofs.Query.Steps
import DocumentClient.Proofs.Query.Wire

/-!
# Equalities in their order

Each field of the equalities of a query stands where it was first asked for, with the value that it
was last asked to have. Once there is an equality, it makes no difference which of the two steps asks
for a further one.
-/

set_option autoImplicit false

namespace DocumentClient.Query

/-- The equality that a step is about. -/
def Step.equality? : Step → Option (String × String)
  | .filter field value | .and field value => some (field, value)
  | _ => none

def Step.isFilter : Step → Bool
  | .filter .. => true
  | _ => false

/-- The same step with its equality, if it is about one, in the form that is never refused. -/
def Step.asFilter : Step → Step
  | .and field value => .filter field value
  | step => step

/-- The equalities that some steps ask for, those of refused steps left out. -/
def State.granted (state : State) : List Step → List (String × String)
  | [] => []
  | step :: steps =>
    match state.step step with
    | .error _ => state.granted steps
    | .ok next => step.equality?.toList ++ next.granted steps

/-- Each name where it comes first, with the value that it has last. -/
def lastOfEach (pairs : List (String × String)) : List (String × String) :=
  (pairs.map (·.1)).eraseDups.map fun name => (name, (pairs.reverse.lookup name).getD "")

theorem entries_ofList (pairs : List (String × String)) :
    (TextMap.ofList pairs).entries = lastOfEach pairs := by
  have keys : (TextMap.ofList pairs).keys = (pairs.map (·.1)).eraseDups :=
    TextMap.keys_insertAll ∅ pairs
  rw [TextMap.entries_eq_map, keys, lastOfEach]
  refine List.map_congr_left fun name _ => ?_
  rw [TextMap.ofList, TextMap.get?_insertAll]
  exact congrArg (fun value : Option String => (name, value.getD "")) Option.or_none

private theorem lastOfEach_eq_nil_iff {pairs : List (String × String)} :
    lastOfEach pairs = [] ↔ pairs = [] := by
  cases pairs <;> simp [lastOfEach, List.eraseDups_cons]

theorem nodup_lastOfEach (pairs : List (String × String)) :
    ((lastOfEach pairs).map (·.1)).Nodup :=
  entries_ofList pairs ▸ TextMap.distinct _

private theorem lookup_lastOfEach (pairs : List (String × String)) (name : String) :
    (lastOfEach pairs).lookup name = pairs.reverse.lookup name := by
  rw [← entries_ofList]
  exact (TextMap.get?_insertAll ∅ pairs name).trans Option.or_none

/-! ## What steps ask for -/

variable {state next : State} {step : Step} {index : Option String}

private theorem equalities_eq (state : State) :
    state.equalities = (state.predicates.getD ∅).entries := by
  rw [State.equalities]
  cases state.predicates <;> rfl

private theorem predicates_of_step (taken : state.step step = .ok next) :
    next.predicates.getD ∅ = (state.predicates.getD ∅).insertAll step.equality?.toList := by
  have asked := asked_of_step taken
  have agrees := agreesBut_of_step taken
  cases step with
  | filter field value | and field value =>
      rw [asked]
      rfl
  | collection | select | orderBy | orderByDescending | skip | take =>
      rw [agrees.predicates (by simp [Step.part])]
      rfl

private theorem granted_of_ok (taken : state.step step = .ok next) (steps : List Step) :
    state.granted (step :: steps) = step.equality?.toList ++ next.granted steps := by
  rw [State.granted, taken]

private theorem granted_of_error {error : Error} (failed : state.step step = .error error)
    (steps : List Step) : state.granted (step :: steps) = state.granted steps := by
  rw [State.granted, failed]

private theorem predicates_steps (state : State) (steps : List Step) :
    (state.steps steps).predicates.getD ∅ =
      (state.predicates.getD ∅).insertAll (state.granted steps) := by
  induction steps generalizing state with
  | nil => rfl
  | cons step steps ih =>
      rw [steps_cons]
      cases taken : state.step step with
      | error error => rw [steps_of_error taken, granted_of_error taken, ih]
      | ok next =>
          rw [steps_of_ok taken, granted_of_ok taken, ih, predicates_of_step taken]
          exact List.foldl_append.symm

private theorem equalities_steps (index : Option String) (steps : List Step) :
    ((State.start index).steps steps).equalities =
      lastOfEach ((State.start index).granted steps) := by
  rw [equalities_eq, predicates_steps, predicates_start, ← entries_ofList]
  rfl

/-! ## Which steps are heard -/

private theorem equality?_of_error {error : Error} (asked : state.predicates ≠ none)
    (failed : state.step step = .error error) : step.equality? = none := by
  cases step with
  | and field value => exact absurd (State.and_eq_error_iff.mp failed).2 asked
  | filter field value => cases failed
  | collection | select | orderBy | orderByDescending | skip | take => rfl

private theorem predicates_ne_none_step (asked : state.predicates ≠ none) (step : Step) :
    (state.steps [step]).predicates ≠ none := by
  intro nothing
  exact asked ((predicates_step_eq_none_iff state step).mp nothing).1

private theorem granted_of_asked (asked : state.predicates ≠ none) (steps : List Step) :
    state.granted steps = steps.filterMap Step.equality? := by
  induction steps generalizing state with
  | nil => rfl
  | cons step steps ih =>
      have kept := predicates_ne_none_step asked step
      rw [List.filterMap_cons]
      cases taken : state.step step with
      | error error => rw [granted_of_error taken, equality?_of_error asked taken, ih asked]
      | ok next =>
          rw [steps_of_ok taken] at kept
          rw [granted_of_ok taken, ih kept]
          cases step.equality? <;> rfl

/-- Before the first filter no equality is heard, and from there on every one. -/
theorem granted_of_unasked (unasked : state.predicates = none) (steps : List Step) :
    state.granted steps = (steps.dropWhile (!·.isFilter)).filterMap Step.equality? := by
  -- As long as no filter comes there are no equalities, and a further one is refused.
  induction steps generalizing state with
  | nil => rfl
  | cons step steps ih =>
      have later := predicates_step_eq_none_iff state step
      cases step with
      | filter field value =>
          have asked : (state.filter field value).predicates ≠ none := by simp [State.filter]
          exact congrArg ((field, value) :: ·) (granted_of_asked asked steps)
      | and field value =>
          have failed : state.step (.and field value) = .error (.validation .andBeforeFilter) :=
            State.and_eq_error_iff.mpr ⟨rfl, unasked⟩
          exact (granted_of_error failed steps).trans (ih unasked)
      | collection | select | orderBy | orderByDescending | skip | take =>
          have still := later.mpr ⟨unasked, by simp⟩
          cases taken : state.step _ with
          | error error => exact (granted_of_error taken steps).trans (ih unasked)
          | ok next => exact (granted_of_ok taken steps).trans (ih (steps_of_ok taken ▸ still))

/-! ## Filters and further equalities -/

private theorem step_asFilter (asked : state.predicates ≠ none) (step : Step) :
    state.step step.asFilter = state.step step := by
  cases step with
  | and field value =>
      cases present : state.predicates with
      | none => exact absurd present asked
      | some predicates => simp [Step.asFilter, State.step, State.filter, State.and, present]
  | collection | filter | select | orderBy | orderByDescending | skip | take => rfl

private theorem steps_asFilter (asked : state.predicates ≠ none) (steps : List Step) :
    state.steps (steps.map Step.asFilter) = state.steps steps := by
  induction steps generalizing state with
  | nil => rfl
  | cons step steps ih =>
      have same : state.steps [step.asFilter] = state.steps [step] :=
        congrArg (fun result : Except Error State => result.toOption.getD state)
          (step_asFilter asked step)
      rw [List.map_cons, steps_cons, same, ih (predicates_ne_none_step asked step),
        ← steps_cons]

/-- The equalities of a query are those that it was asked for and did not refuse: each field where
it came first, with its last value. They are sent in that order. Behind a filter, filters and
further equalities may take each other's places. -/
theorem equalities_in_order (index : Option String) (steps : List Step) :
    let state := (State.start index).steps steps
    let asked := (State.start index).granted steps
    let inOrder := lastOfEach asked
    asked = (steps.dropWhile (!·.isFilter)).filterMap Step.equality? ∧
      state.predicates.map TextMap.entries = (if asked = [] then none else some inOrder) ∧
      (inOrder.map (·.1)).Nodup ∧
      (∀ field, inOrder.lookup field = asked.reverse.lookup field) ∧
      state.predicate? =
        (if asked = [] then none else some (Text.join " AND " (inOrder.map term))) ∧
      (asked ≠ [] → readPredicate (Text.join " AND " (inOrder.map term)) =
        inOrder.map fun predicate => (utf8 predicate.1, utf8 predicate.2)) ∧
      ((∃ field value, .filter field value ∈ steps) →
        (∀ field value, state.step (.and field value) = state.step (.filter field value)) ∧
          ∀ later other : List Step, later.map Step.asFilter = other.map Step.asFilter →
            state.steps later = state.steps other) := by
  intro state asked inOrder
  have equalities : state.equalities = inOrder := equalities_steps index steps
  refine ⟨granted_of_unasked (predicates_start index) steps, ?_, nodup_lastOfEach asked,
    lookup_lastOfEach asked, ?_, ?_, ?_⟩
  · have filled := (wellFormed_steps index steps).predicates
    cases present : state.predicates with
    | none =>
        have nothing : inOrder = [] := by
          rw [← equalities, State.equalities, present]
          rfl
        rw [if_pos (lastOfEach_eq_nil_iff.mp nothing)]
        rfl
    | some predicates =>
        have entries : predicates.entries = inOrder := by
          rw [← equalities, State.equalities, present]
          rfl
        have heard : asked ≠ [] := by
          intro nothing
          exact (filled predicates present).1 (entries.trans (lastOfEach_eq_nil_iff.mpr nothing))
        rw [if_neg heard, ← entries]
        rfl
  · rw [State.predicate?_eq, equalities]
    simp only [inOrder, lastOfEach_eq_nil_iff]
  · intro present
    exact readPredicate_join (mt lastOfEach_eq_nil_iff.mp present)
  · rintro ⟨field, value, member⟩
    have filtered : state.predicates ≠ none := by
      intro nothing
      have unasked := (predicates_steps_eq_none_iff (State.start index) steps).mp nothing
      exact unasked.2 field value member
    constructor
    · intro field value
      exact (step_asFilter filtered (.and field value)).symm
    · intro later other same
      rw [← steps_asFilter filtered later, same, steps_asFilter filtered other]

example : (State.dynamic.steps [.and "Name" "Oren", .filter "Age" "29", .filter "Name" "Ayende",
    .and "Age" "30"]).equalities = [("Age", "30"), ("Name", "Ayende")] := by
  decide +kernel

end DocumentClient.Query
