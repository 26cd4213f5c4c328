import DocumentClient.Proofs.Form
import DocumentClient.Proofs.Resolution
import DocumentClient.Query.Compiled

/-!
# Compiled queries

A query compiles exactly if the names in its path are acceptable and, where there is no name, some
parameter is set. The compiled text is one that a host keeps as it stands.
-/

set_option autoImplicit false

namespace DocumentClient.Query

namespace State

variable {state : State}

theorem target_of_index {name : String} (named : state.indexName? = some name) :
    state.target = .index name := by
  rw [indexName?] at named
  cases target : state.target with
  | index own =>
      rw [target] at named
      exact congrArg Target.index (Option.some.inj named)
  | dynamic collection =>
      rw [target] at named
      cases named

theorem target_of_dynamic (documents : state.indexName? = none) :
    state.target = .dynamic state.collection? := by
  rw [indexName?] at documents
  rw [collection?]
  cases target : state.target with
  | index own =>
      rw [target] at documents
      cases documents
  | dynamic collection => rfl

/-- The names in the path of a query. The empty text is no collection. -/
def names (state : State) : List String :=
  match state.target with
  | .index name => "indexes" :: Text.piecesOf '/' name
  | .dynamic collection => "indexes" :: "dynamic" :: (collection.filter (· ≠ "")).toList

/-- A query that can be sent. Without a name it has to ask for something. -/
def Acceptable (state : State) : Prop :=
  match state.target with
  | .index name => PathSegment.AcceptablePath name
  | .dynamic collection =>
    match collection.filter (· ≠ "") with
    | some name => PathSegment.Acceptable name
    | none => state.parameters ≠ []

instance (state : State) : Decidable state.Acceptable :=
  match target : state.target with
  | .index name =>
    decidable_of_iff (PathSegment.AcceptablePath name) (by simp only [Acceptable, target])
  | .dynamic collection =>
    match named : collection.filter (· ≠ "") with
    | some name =>
      decidable_of_iff (PathSegment.Acceptable name) (by simp only [Acceptable, target, named])
    | none =>
      decidable_of_iff (state.parameters ≠ []) (by simp only [Acceptable, target, named])

theorem names_ne_nil (state : State) : state.names ≠ [] := by
  unfold names
  split <;> simp

theorem acceptable_names (acceptable : state.Acceptable) :
    ∀ name ∈ state.names, PathSegment.Acceptable name := by
  have fixed : PathSegment.Acceptable "indexes" ∧ PathSegment.Acceptable "dynamic" := by
    decide
  unfold Acceptable at acceptable
  unfold names
  split at acceptable
  · exact List.forall_mem_cons.mpr ⟨fixed.1, acceptable⟩
  · split at acceptable
    · rename_i found
      rw [found]
      simpa using ⟨fixed.1, fixed.2, acceptable⟩
    · rename_i found
      rw [found]
      simpa using fixed

/-! ## Compiling -/

private theorem path_of_acceptable (acceptable : state.Acceptable) :
    state.path = .ok (Text.join "/" (state.names.map PathSegment.written)) := by
  have indexes : PathSegment.written "indexes" = "indexes" := by decide
  have dynamic : PathSegment.written "dynamic" = "dynamic" := by decide
  cases target : state.target with
  | index name =>
      simp only [Acceptable, target] at acceptable
      have present : (Text.piecesOf '/' name).map PathSegment.written ≠ [] := by
        simp [Text.piecesOf_ne_nil]
      simp only [path, names, target]
      rw [PathSegment.encodePath_of_acceptable acceptable, List.map_cons, indexes,
        Text.join_cons _ _ present]
      rfl
  | dynamic collection =>
      cases named : collection.filter (· ≠ "") with
      | some name =>
          simp only [Acceptable, target, named] at acceptable
          simp only [path, names, target, named]
          rw [PathSegment.encode_of_acceptable acceptable]
          simp only [Option.toList_some, List.map_cons, List.map_nil, indexes, dynamic]
          rfl
      | none =>
          simp only [Acceptable, target, named] at acceptable
          have asked : ¬ state.parameters.isEmpty := by simpa using acceptable
          simp only [path, names, target, named]
          rw [if_neg asked]
          simp only [Option.toList_none, List.map_cons, List.map_nil, indexes, dynamic]
          rfl

private theorem path_of_not_acceptable (refused : ¬ state.Acceptable) :
    ∃ misuse, state.path = .error misuse := by
  cases target : state.target with
  | index name =>
      simp only [Acceptable, target] at refused
      obtain ⟨misuse, failed⟩ := PathSegment.encodePath_of_not_acceptable refused "index name"
      simp only [path, target, failed]
      exact ⟨misuse, rfl⟩
  | dynamic collection =>
      cases named : collection.filter (· ≠ "") with
      | some name =>
          simp only [Acceptable, target, named] at refused
          obtain ⟨misuse, failed⟩ := PathSegment.encode_of_not_acceptable refused "collection"
          simp only [path, target, named, failed]
          exact ⟨misuse, rfl⟩
      | none =>
          simp only [Acceptable, target, named] at refused
          have nothing : state.parameters.isEmpty := by simpa using refused
          simp only [path, target, named]
          rw [if_pos nothing]
          exact ⟨_, rfl⟩

def compiled (state : State) : Compiled :=
  ⟨Text.join "/" (state.names.map PathSegment.written), state.queryString?⟩

theorem compile_of_acceptable (acceptable : state.Acceptable) :
    state.compile = .ok state.compiled := by
  rw [compile, path_of_acceptable acceptable]
  rfl

theorem compile_of_not_acceptable (refused : ¬ state.Acceptable) :
    ∃ misuse, state.compile = .error (.validation misuse) := by
  obtain ⟨misuse, failed⟩ := path_of_not_acceptable refused
  rw [compile, failed]
  exact ⟨misuse, rfl⟩

theorem acceptable_of_compile {compiled : Compiled} (compiles : state.compile = .ok compiled) :
    state.Acceptable ∧ compiled = state.compiled := by
  by_cases acceptable : state.Acceptable
  · rw [compile_of_acceptable acceptable] at compiles
    cases compiles
    exact ⟨acceptable, rfl⟩
  · obtain ⟨misuse, failed⟩ := compile_of_not_acceptable acceptable
    cases failed.symm.trans compiles

/-! ## On the wire -/

theorem queryString?_getD (state : State) :
    state.queryString?.getD "" = Form.encode state.parameters := by
  unfold queryString?
  split
  · rename_i nothing
    rw [List.isEmpty_iff.mp nothing]
    rfl
  · rfl

private theorem kept_of_mem_queryString? {text : String} (found : text ∈ state.queryString?)
    {char : Char} (member : char ∈ text.toList) : Percent.Kept (Url.inQuery true) char := by
  have line : text = Form.encode state.parameters := by
    rw [← queryString?_getD, Option.mem_def.mp found, Option.getD_some]
  rw [line] at member
  rcases Form.mem_encode member with inside | rfl | rfl
  · have ascii : char.toNat < 128 := by
      simp only [Form.isTextChar, Bool.and_eq_true, decide_eq_true_eq] at inside
      exact inside.1
    have checked := Text.ascii_all (fun char => !Form.isTextChar char || !Url.inQuery true char)
      (by decide) ascii
    exact ⟨ascii, by simpa [inside] using checked⟩
  · exact ⟨by decide, by decide⟩
  · exact ⟨by decide, by decide⟩

theorem written_compiled (acceptable : state.Acceptable) :
    Settings.Written state.compiled.text (state.names.map PathSegment.written)
      state.queryString? := by
  refine Settings.written_of_acceptable state.names_ne_nil (acceptable_names acceptable)
    (fun _ found _ => kept_of_mem_queryString? found) ?_
  rw [Compiled.text, compiled, String.toList_append]
  cases state.queryString? <;> simp [Settings.queryText]

end State

/-! ## Steps -/

/-- Where a query looks behind a step. -/
def Target.behind : Target → Step → Target
  | .dynamic _, .collection name => .dynamic (some name)
  | target, _ => target

/-- The collection that the last of some steps names. -/
def lastCollection? (steps : List Step) : Option String :=
  (steps.filterMap fun
    | .collection name => some name
    | _ => none).getLast?

theorem Target.behind_eq_self {step : Step} (other : ∀ name, step ≠ .collection name)
    (target : Target) : target.behind step = target := by
  cases step with
  | collection name => exact absurd rfl (other name)
  | and | select | filter | orderBy | orderByDescending | skip | take => cases target <;> rfl

private theorem target_step (state : State) (step : Step) :
    ((state.step step).toOption.getD state).target = state.target.behind step := by
  cases step with
  | collection name =>
      simp only [State.step, State.setCollection]
      cases target : state.target with
      | index index => exact target
      | dynamic collection => rfl
  | and field value =>
      rw [Target.behind_eq_self (by simp), State.step, State.and]
      cases state.predicates <;> rfl
  | select fields =>
      rw [Target.behind_eq_self (by simp), State.step, State.select]
      cases fields.isEmpty <;> rfl
  | filter | orderBy | orderByDescending | skip | take =>
      rw [Target.behind_eq_self (by simp)]
      rfl

private theorem target_steps (state : State) (steps : List Step) :
    (state.steps steps).target = steps.foldl Target.behind state.target := by
  induction steps generalizing state with
  | nil => rfl
  | cons step steps ih =>
      rw [List.foldl_cons, ← target_step state step]
      exact ih _

private theorem foldl_behind_index (index : String) (steps : List Step) :
    steps.foldl Target.behind (.index index) = .index index := by
  induction steps with
  | nil => rfl
  | cons step steps ih => exact ih

private theorem foldl_behind_dynamic (collection : Option String) (steps : List Step) :
    steps.foldl Target.behind (.dynamic collection) =
      .dynamic ((lastCollection? steps).or collection) := by
  induction steps generalizing collection with
  | nil => rfl
  | cons step steps ih =>
      cases step with
      | collection name =>
          rw [List.foldl_cons, Target.behind, ih]
          simp [lastCollection?, List.getLast?_cons]
      | and | select | filter | orderBy | orderByDescending | skip | take => exact ih collection

theorem start_eq (index : Option String) :
    State.start index = match index.filter (· ≠ "") with
      | some name => { target := .index name }
      | none => {} := by
  cases index with
  | none => rfl
  | some name =>
      by_cases empty : name = ""
      · subst empty
        rfl
      · have named : (some name).filter (· ≠ "") = some name := by simp [empty]
        rw [named, State.start, State.ofIndex, if_neg empty]

/-- A query looks where it was started, and in the last collection that it was narrowed to. The
empty text is no index. -/
theorem target_start_steps (index : Option String) (steps : List Step) :
    ((State.start index).steps steps).target =
      match index.filter (· ≠ "") with
      | some name => .index name
      | none => .dynamic (lastCollection? steps) := by
  rw [target_steps, start_eq]
  cases index.filter (· ≠ "") with
  | none =>
      have documents := foldl_behind_dynamic none steps
      rwa [Option.or_none] at documents
  | some name => exact foldl_behind_index name steps

end DocumentClient.Query
