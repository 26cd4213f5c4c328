import DocumentClient.Proofs.Query.Acceptance

/-!
# Sorted queries

Which order a query asks for. Only the last of the steps that set an order counts, and it changes
nothing else. The order is sent as one text, a field with a hyphen in front of it where the order is
descending; so two orders are told apart unless a field begins with that hyphen itself.
-/

set_option autoImplicit false

namespace DocumentClient.Query

/-- What a step sorts by, as it is sent. -/
def Step.sortKey? : Step → Option String
  | .orderBy field => some field
  | .orderByDescending field => some ("-" ++ field)
  | _ => none

def Step.isSort (step : Step) : Bool :=
  step.sortKey?.isSome

/-- The last of some steps that sets an order. -/
def lastSort? (steps : List Step) : Option Step :=
  steps.reverse.find? Step.isSort

/-- The same query without an order. -/
def State.unsorted (state : State) : State :=
  { state with sortKey := none }

/-! ## What steps sort by -/

private theorem sortKey_steps_singleton (state : State) (step : Step) :
    (state.steps [step]).sortKey = step.sortKey?.or state.sortKey := by
  cases taken : state.step step with
  | error error =>
      rw [steps_of_error taken]
      cases step with
      | orderBy | orderByDescending => cases taken
      | collection | filter | and | select | skip | take => rfl
  | ok next =>
      rw [steps_of_ok taken]
      cases step with
      | orderBy | orderByDescending =>
          cases taken
          rfl
      | collection | filter | and | select | skip | take =>
          exact (agreesBut_of_step taken).sortKey (by simp [Step.part])

private theorem sortKey_steps {steps : List Step} {step : Step} (last : lastSort? steps = some step)
    (state : State) : (state.steps steps).sortKey = step.sortKey? := by
  induction steps using List.reverseRecOn with
  | nil => cases last
  | append_singleton steps later ih =>
      rw [lastSort?, List.reverse_append, List.reverse_singleton, List.singleton_append,
        List.find?_cons] at last
      rw [steps_append, sortKey_steps_singleton]
      cases sorts : later.isSort with
      | true =>
          rw [sorts] at last
          cases last
          obtain ⟨key, found⟩ := Option.isSome_iff_exists.mp sorts
          rw [found]
          rfl
      | false =>
          rw [sorts] at last
          have nothing : later.sortKey? = none :=
            Option.not_isSome_iff_eq_none.mp (Bool.not_eq_true _ ▸ sorts)
          rw [ih last, nothing]
          rfl

/-! ## What else steps ask for -/

private theorem unsorted_steps_singleton (state : State) (step : Step) :
    (state.steps [step]).unsorted =
      state.unsorted.steps ([step].filter (!·.isSort)) := by
  -- A step that can be refused is so for the target, the equalities or the fields alone.
  obtain ⟨target, predicates, selected, sortKey, skip, take⟩ := state
  cases step with
  | orderBy | orderByDescending | filter | skip | take => rfl
  | collection name => cases target <;> rfl
  | and field value => cases predicates <;> rfl
  | select fields => cases fields <;> rfl

/-- Steps that set an order ask for nothing else. -/
theorem unsorted_steps (state : State) (steps : List Step) :
    (state.steps steps).unsorted = state.unsorted.steps (steps.filter (!·.isSort)) := by
  induction steps generalizing state with
  | nil => rfl
  | cons step steps ih =>
      rw [steps_cons, ih, unsorted_steps_singleton, ← steps_append, ← List.filter_append]
      rfl

/-! ## Orders on the wire -/

/-- The texts that a compiled query is sent with as what to sort by. -/
def sortsSent (compiled : Compiled) : List Bytes :=
  ((Form.decode (compiled.query.getD "")).filter (·.1 = utf8 "sort")).map (·.2)

/-- The parameter for a sort key. An empty one has none. -/
def sortPairs (key : String) : List (String × String) :=
  if key = "" then [] else [("sort", key)]

private theorem sortPairs_inj {key other : String} :
    sortPairs key = sortPairs other ↔ key = other := by
  refine ⟨fun same => ?_, congrArg sortPairs⟩
  unfold sortPairs at same
  split at same <;> split at same <;> simp_all

namespace State

variable {state first second : State} {one other : Compiled}

private theorem eq_of_unsorted (others : first.unsorted = second.unsorted) :
    first = { second with sortKey := first.sortKey } := by
  obtain ⟨target, predicates, selected, sortKey, skip, take⟩ := second
  obtain ⟨_, _, _, key, _, _⟩ := first
  cases others
  rfl

/-- The parameter of the order stands between others that come from elsewhere. -/
theorem parameters_around (state : State) :
    ∃ before after, (∀ pair ∈ before ++ after, pair.1 ≠ "sort") ∧
      ∀ other : State, other.unsorted = state.unsorted →
        other.parameters = before ++ sortPairs (other.sortKey.getD "") ++ after := by
  let line := Text.join " AND " (state.equalities.map term)
  refine ⟨(if state.equalities = [] then [] else [("query", line)]) ++
      (state.selected.getD []).map (fun field => ("fetch", field)),
    counted "start" state.skip ++ counted "pageSize" state.take, ?_, ?_⟩
  · intro pair member
    simp only [List.mem_append, List.mem_map, counted, List.mem_ite_nil_left,
      List.mem_ite_nil_right, List.mem_singleton] at member
    rcases member with (⟨_, rfl⟩ | ⟨_, _, rfl⟩) | ⟨_, rfl⟩ | ⟨_, rfl⟩ <;> simp
  · intro other others
    rw [eq_of_unsorted others, parameters_eq, pairs, List.append_assoc]
    rfl

private theorem query_of_compile (compiles : state.compile = .ok one) :
    Form.decode (one.query.getD "") =
      state.parameters.map fun pair => (utf8 pair.1, utf8 pair.2) := by
  obtain ⟨_, rfl⟩ := acceptable_of_compile compiles
  exact decode_queryString? state

private theorem sortsSent_of_compile (compiles : state.compile = .ok one) :
    sortsSent one = (sortPairs (state.sortKey.getD "")).map fun pair => utf8 pair.2 := by
  obtain ⟨before, after, apart, parameters⟩ := parameters_around state
  have elsewhere (pairs : List (String × String)) (inside : pairs ⊆ before ++ after) :
      (pairs.map fun pair => (utf8 pair.1, utf8 pair.2)).filter (·.1 = utf8 "sort") = [] := by
    simp only [List.filter_eq_nil_iff, List.mem_map, decide_eq_true_eq]
    rintro _ ⟨pair, member, rfl⟩ same
    exact apart pair (inside member) (utf8_inj.mp same)
  rw [sortsSent, query_of_compile compiles, parameters state rfl, List.map_append, List.map_append,
    List.filter_append, List.filter_append, elsewhere before (by simp), elsewhere after (by simp),
    List.nil_append, List.append_nil]
  unfold sortPairs
  split <;> simp

/-- Two queries that differ in their order at most are told apart by nothing but the text that they
are sorted by. -/
theorem text_eq_iff (others : first.unsorted = second.unsorted)
    (compiles : first.compile = .ok one) (otherCompiles : second.compile = .ok other) :
    one.text = other.text ↔ first.sortKey.getD "" = second.sortKey.getD "" := by
  obtain ⟨before, after, _, parameters⟩ := parameters_around second
  have sent : first.parameters = second.parameters ↔
      first.sortKey.getD "" = second.sortKey.getD "" := by
    rw [parameters first others, parameters second rfl, List.append_cancel_right_eq,
      List.append_cancel_left_eq, sortPairs_inj]
  rw [← sent]
  constructor
  · intro same
    have noMark : '?' ∉ one.path.toList := not_mem_path compiles (by decide) (by decide)
    have otherNoMark : '?' ∉ other.path.toList :=
      not_mem_path otherCompiles (by decide) (by decide)
    have equal : one = other := by
      rw [← Compiled.ofText_text noMark, same, Compiled.ofText_text otherNoMark]
    have read := query_of_compile compiles
    rw [equal, query_of_compile otherCompiles] at read
    refine (List.map_injective_iff.mpr ?_ read).symm
    intro pair pair' coded
    exact Prod.ext (utf8_inj.mp (Prod.ext_iff.mp coded).1) (utf8_inj.mp (Prod.ext_iff.mp coded).2)
  · intro same
    have names : first.names = second.names := by rw [eq_of_unsorted others]; rfl
    obtain ⟨_, rfl⟩ := acceptable_of_compile compiles
    obtain ⟨_, rfl⟩ := acceptable_of_compile otherCompiles
    rw [compiled, compiled, queryString?, queryString?, names, same]

end State

/-! ## Orders told apart -/

section

variable {index : Option String} {first second : List Step} {one other : Compiled}

/-- Queries made by the same steps but for those that set an order are told apart exactly by the
texts that they are sorted by in the end. -/
theorem text_steps_eq_iff (others : first.filter (!·.isSort) = second.filter (!·.isSort))
    (compiles : ((State.start index).steps first).compile = .ok one)
    (otherCompiles : ((State.start index).steps second).compile = .ok other) {sort otherSort : Step}
    (last : lastSort? first = some sort) (otherLast : lastSort? second = some otherSort) :
    one.text = other.text ↔ sort.sortKey?.getD "" = otherSort.sortKey?.getD "" := by
  have same : ((State.start index).steps first).unsorted =
      ((State.start index).steps second).unsorted := by
    rw [unsorted_steps, unsorted_steps, others]
  rw [State.text_eq_iff same compiles otherCompiles, sortKey_steps last, sortKey_steps otherLast]

private theorem sortsSent_steps (compiles : ((State.start index).steps first).compile = .ok one)
    {sort : Step} (last : lastSort? first = some sort) :
    sortsSent one = (sortPairs (sort.sortKey?.getD "")).map fun pair => utf8 pair.2 := by
  rw [State.sortsSent_of_compile compiles, sortKey_steps last]

/-- Whatever else two queries are both asked for, an ascending and a descending order are sent as
the same text exactly if the ascending one is by a field with the hyphen of the other in front. In
one direction different fields are sent as different texts. An ascending order by an empty field is
not sent. -/
theorem order_is_sent (others : first.filter (!·.isSort) = second.filter (!·.isSort))
    (compiles : ((State.start index).steps first).compile = .ok one)
    (otherCompiles : ((State.start index).steps second).compile = .ok other) :
    (∀ field key, lastSort? first = some (.orderBy field) →
        lastSort? second = some (.orderByDescending key) → key ≠ "" →
        (one.text = other.text ↔ field = "-" ++ key)) ∧
      (∀ field key, lastSort? first = some (.orderBy field) →
        lastSort? second = some (.orderBy key) → (one.text = other.text ↔ field = key)) ∧
      (∀ field key, lastSort? first = some (.orderByDescending field) →
        lastSort? second = some (.orderByDescending key) → field ≠ "" → key ≠ "" →
        (one.text = other.text ↔ field = key)) ∧
      (∀ field, lastSort? first = some (.orderBy field) →
        sortsSent one = if field = "" then [] else [utf8 field]) ∧
      ∀ field, lastSort? first = some (.orderByDescending field) → field ≠ "" →
        sortsSent one = [utf8 ("-" ++ field)] := by
  have told {sort otherSort : Step} (last : lastSort? first = some sort)
      (otherLast : lastSort? second = some otherSort) :=
    text_steps_eq_iff others compiles otherCompiles last otherLast
  refine ⟨?_, ?_, ?_, ?_, ?_⟩
  · intro field key last otherLast _
    exact told last otherLast
  · intro field key last otherLast
    exact told last otherLast
  · intro field key last otherLast _ _
    rw [told last otherLast]
    exact String.append_right_inj "-"
  · intro field last
    rw [sortsSent_steps compiles last, Step.sortKey?, Option.getD_some, sortPairs]
    split <;> rfl
  · intro field last _
    have marked : "-" ++ field ≠ "" := by simp
    rw [sortsSent_steps compiles last, Step.sortKey?, Option.getD_some, sortPairs, if_neg marked]
    rfl

end

theorem order_of_users_is_sent :
    let first := [Step.collection "Users", .orderByDescending "Name", .orderBy "-Age"]
    let second := [Step.orderBy "Name", .collection "Users", .orderByDescending "Age"]
    ∃ one other, (State.dynamic.steps first).compile = .ok one ∧
      (State.dynamic.steps second).compile = .ok other ∧ one.text = other.text ∧
      sortsSent one = [utf8 "-Age"] ∧ sortsSent other = [utf8 "-Age"] := by
  intro first second
  have others : first.filter (!·.isSort) = second.filter (!·.isSort) := by decide
  have compiles : ((State.start none).steps first).compile = .ok _ :=
    State.compile_of_acceptable (by decide +kernel)
  have otherCompiles : ((State.start none).steps second).compile = .ok _ :=
    State.compile_of_acceptable (by decide +kernel)
  obtain ⟨apart, _, _, ascending, _⟩ := order_is_sent others compiles otherCompiles
  obtain ⟨_, _, _, _, descending⟩ := order_is_sent others.symm otherCompiles compiles
  exact ⟨_, _, compiles, otherCompiles,
    (apart "-Age" "Age" (by decide) (by decide) (by decide)).mpr (by decide),
    ascending "-Age" (by decide), descending "Age" (by decide) (by decide)⟩

/-- A field may begin with the hyphen of a descending order, and a descending order by an empty
field is sent as the hyphen alone. -/
theorem hyphen_is_ambiguous :
    (¬ ∀ (index : Option String) (first second : List Step) (one other : Compiled)
        (field key : String), first.filter (!·.isSort) = second.filter (!·.isSort) →
      ((State.start index).steps first).compile = .ok one →
      ((State.start index).steps second).compile = .ok other →
      lastSort? first = some (.orderBy field) →
      lastSort? second = some (.orderByDescending key) → one.text ≠ other.text) ∧
    ¬ ∀ (index : Option String) (steps : List Step) (compiled : Compiled),
      ((State.start index).steps steps).compile = .ok compiled →
      lastSort? steps = some (.orderByDescending "") → sortsSent compiled = [] := by
  constructor
  · intro apart
    have ascending : (State.dynamic.steps [.collection "Users", .orderBy "-Age"]).compile =
        .ok ⟨"indexes/dynamic/Users", some "sort=-Age"⟩ := by decide +kernel
    have descending :
        (State.dynamic.steps [.collection "Users", .orderByDescending "Age"]).compile =
          .ok ⟨"indexes/dynamic/Users", some "sort=-Age"⟩ := by decide +kernel
    exact apart none [.collection "Users", .orderBy "-Age"]
      [.collection "Users", .orderByDescending "Age"] _ _ _ _ rfl ascending descending rfl rfl rfl
  · intro nothing
    have descending : (State.dynamic.steps [.collection "Users", .orderByDescending ""]).compile =
        .ok ⟨"indexes/dynamic/Users", some "sort=-"⟩ := by decide +kernel
    have sent : sortsSent ⟨"indexes/dynamic/Users", some "sort=-"⟩ = [utf8 "-"] := by
      decide +kernel
    cases sent.symm.trans (nothing none _ _ descending rfl)

end DocumentClient.Query
