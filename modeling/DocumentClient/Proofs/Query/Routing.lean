import DocumentClient.Proofs.Query.Compiled

/-!
# Where compiled queries lead

Two queries have the same path exactly if the same names lead to them. An index name keeps its
slashes, so the names of an index may be those of a query of the documents: an index called
`dynamic`, or one whose name goes on behind `dynamic/`, is looked up where such a query looks.
-/

set_option autoImplicit false

namespace DocumentClient

namespace PathSegment

private theorem written_inj {first second : String} (same : written first = written second) :
    first = second := by
  rw [← utf8_inj, ← decode_written, same, decode_written]

private theorem join_written_inj {names others : List String} (present : names ≠ [])
    (otherPresent : others ≠ [])
    (same : Text.join "/" (names.map written) = Text.join "/" (others.map written)) :
    names = others := by
  have texts := (piecesOf_join_written present).symm.trans
    ((congrArg _ same).trans (piecesOf_join_written otherPresent))
  exact List.map_injective_iff.mpr (fun _ _ => written_inj) texts

end PathSegment

namespace Query.State

variable {first second : State} {compiled other : Compiled}

private theorem path_eq_iff_names_eq (compiles : first.compile = .ok compiled)
    (otherCompiles : second.compile = .ok other) :
    compiled.path = other.path ↔ first.names = second.names := by
  obtain ⟨_, rfl⟩ := acceptable_of_compile compiles
  obtain ⟨_, rfl⟩ := acceptable_of_compile otherCompiles
  constructor
  · intro same
    exact PathSegment.join_written_inj first.names_ne_nil second.names_ne_nil same
  · intro same
    rw [State.compiled, State.compiled, same]

private theorem names_of_index {state : State} {name : String}
    (index : state.indexName? = some name) :
    state.names = "indexes" :: Text.piecesOf '/' name := by
  rw [names, target_of_index index]

private theorem names_of_dynamic {state : State} (dynamic : state.indexName? = none) :
    state.names = "indexes" :: "dynamic" :: (state.collection?.filter (· ≠ "")).toList := by
  rw [names, target_of_dynamic dynamic]

private theorem piecesOf_eq_dynamic_iff {name : String} :
    Text.piecesOf '/' name = ["dynamic"] ↔ name = "dynamic" := by
  have single : Text.piecesOf '/' "dynamic" = ["dynamic"] := by decide
  constructor
  · intro pieces
    exact Text.piecesOf_inj (pieces.trans single.symm)
  · rintro rfl
    exact single

/-- An index query asks all documents for nothing, which no query of the documents may do, exactly
if its index is called `dynamic` and no parameter is set. -/
theorem compiled_of_index_eq_bare_iff {name : String} (index : first.indexName? = some name)
    (compiles : first.compile = .ok compiled) :
    compiled = ⟨"indexes/dynamic", none⟩ ↔ name = "dynamic" ∧ first.parameters = [] := by
  have bare : "indexes/dynamic" =
      Text.join "/" (["indexes", "dynamic"].map PathSegment.written) := by
    decide
  have path : compiled.path = "indexes/dynamic" ↔ name = "dynamic" := by
    obtain ⟨_, rfl⟩ := acceptable_of_compile compiles
    rw [← piecesOf_eq_dynamic_iff, State.compiled, names_of_index index, bare]
    constructor
    · intro same
      exact (List.cons.inj (PathSegment.join_written_inj (by simp) (by simp) same)).2
    · intro pieces
      rw [pieces]
  have query : compiled.query = none ↔ first.parameters = [] := by
    obtain ⟨_, rfl⟩ := acceptable_of_compile compiles
    simp [State.compiled, queryString?]
  rw [← path, ← query]
  cases compiled
  simp

/-- The path of an index is that of a query of the documents exactly if the name of the index is
`dynamic`, or `dynamic/` and the collection of that query, which then holds no slash. Only the
first of these names leads to all documents without a parameter. -/
theorem index_path_eq_dynamic_iff {name : String} (index : first.indexName? = some name)
    (compiles : first.compile = .ok compiled) :
    (∀ (second : State) (other : Compiled), second.indexName? = none →
      second.compile = .ok other →
        (compiled.path = other.path ↔
          Text.piecesOf '/' name = "dynamic" :: (second.collection?.filter (· ≠ "")).toList)) ∧
      (compiled = ⟨"indexes/dynamic", none⟩ ↔ name = "dynamic" ∧ first.parameters = []) := by
  constructor
  · intro second other dynamic otherCompiles
    rw [path_eq_iff_names_eq compiles otherCompiles, names_of_index index,
      names_of_dynamic dynamic, List.cons_inj_right]
  · exact compiled_of_index_eq_bare_iff index compiles

theorem index_path_of_collection :
    (State.ofIndex "dynamic/Users").compile = .ok ⟨"indexes/dynamic/Users", none⟩ ∧
      ∃ other, (State.dynamic.steps [.collection "Users", .take 5]).compile = .ok other ∧
        "indexes/dynamic/Users" = other.path := by
  have compiles : (State.ofIndex "dynamic/Users").compile =
      .ok ⟨"indexes/dynamic/Users", none⟩ := by
    decide +kernel
  have otherCompiles : (State.dynamic.steps [.collection "Users", .take 5]).compile =
      .ok ⟨"indexes/dynamic/Users", some "pageSize=5"⟩ := by
    decide +kernel
  have index : (State.ofIndex "dynamic/Users").indexName? = some "dynamic/Users" := by decide
  have paths := (index_path_eq_dynamic_iff index compiles).1 _ _ (by decide) otherCompiles
  exact ⟨compiles, _, otherCompiles, paths.mpr (by decide +kernel)⟩

/-- An index called `dynamic` is not looked up as an index. -/
theorem index_called_dynamic_not_apart :
    ¬ ∀ (name : String) (steps others : List Step) (compiled other : Compiled), name ≠ "" →
      ((State.ofIndex name).steps steps).compile = .ok compiled →
        (State.dynamic.steps others).compile = .ok other → compiled.path ≠ other.path := by
  intro claim
  have compiles : ((State.ofIndex "dynamic").steps []).compile =
      .ok ⟨"indexes/dynamic", none⟩ := by
    decide +kernel
  have otherCompiles : (State.dynamic.steps [.take 5]).compile =
      .ok ⟨"indexes/dynamic", some "pageSize=5"⟩ := by
    decide +kernel
  exact claim "dynamic" [] [.take 5] _ _ (by decide) compiles otherCompiles rfl

end Query.State

end DocumentClient
