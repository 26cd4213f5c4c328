import DocumentClient.Proofs.Query.Steps
import DocumentClient.Proofs.Query.Wire

/-!
# Queries that compile

Whatever steps a query is made by, it compiles exactly if its names are acceptable and, where it is
about all documents, it asks for something. Its parameters can always be written, and its text is cut
into path and parameters again at the first question mark.
-/

set_option autoImplicit false

namespace DocumentClient.Query

namespace State

variable {state : State} {index : Option String}

/-! ## Parameters as data -/

def namedList (name : String) (texts : List String) : List (Datum × Datum) :=
  if texts = [] then [] else [(.text name, .list (texts.map .text))]

def namedText (name : String) (text : Option String) : List (Datum × Datum) :=
  (text.map fun text => (Datum.text name, Datum.present (.text text))).toList

def namedCount (name : String) (count : Option Nat) : List (Datum × Datum) :=
  ((count.filter (0 < ·)).map fun count =>
    (Datum.text name, Datum.present (.integer count))).toList

/-- The parameters as data, before anything is written. What is empty has no entry. -/
def table (state : State) : List (Datum × Datum) :=
  namedText "query" state.predicate? ++ namedList "fetch" (state.selected.getD []) ++
    namedText "sort" (state.sortKey.filter (· ≠ "")) ++ namedCount "start" state.skip ++
    namedCount "pageSize" state.take

private theorem writtenAs_namedList (name : String) (texts : List String) :
    Form.WrittenAs (namedList name texts) (texts.map (name, ·)) := by
  unfold namedList
  split
  · rename_i nothing
    exact nothing ▸ Form.writtenAs_nil
  · exact Form.writtenAs_list name texts

private theorem writtenAs_namedText (name : String) (text : Option String) :
    Form.WrittenAs (namedText name text) (text.map (name, ·)).toList := by
  cases text with
  | none => exact Form.writtenAs_nil
  | some text => exact Form.writtenAs_text name text

private theorem writtenAs_namedCount (name : String) (count : Option Nat) :
    Form.WrittenAs (namedCount name count)
      ((count.filter (0 < ·)).map fun count => (name, toString count)).toList := by
  unfold namedCount
  cases count.filter (0 < ·) with
  | none => exact Form.writtenAs_nil
  | some count => exact Form.writtenAs_count name count

private theorem writtenAs_table (state : State) : Form.WrittenAs state.table state.parameters :=
  ((((writtenAs_namedText "query" _).append (writtenAs_namedList "fetch" _)).append
    (writtenAs_namedText "sort" _)).append (writtenAs_namedCount "start" _)).append
    (writtenAs_namedCount "pageSize" _)

/-- Parameters can always be written. -/
theorem queryString_table (state : State) :
    queryString (.table state.table) = .ok (state.queryString?.getD "") := by
  rw [queryString, Form.write_table (writtenAs_table state), queryString?_getD]
  rfl

private theorem queryString?_eq_none_iff (state : State) :
    state.queryString? = none ↔ state.parameters = [] := by
  simp [queryString?]

private theorem queryString?_ne_empty (state : State) : state.queryString? ≠ some "" := by
  intro found
  have nothing : Form.encode state.parameters = "" := by
    rw [← queryString?_getD, found, Option.getD_some]
  have present : state.queryString? = none :=
    (queryString?_eq_none_iff state).mpr (Form.encode_eq_empty_iff.mp nothing)
  rw [present] at found
  cases found

/-- Compiling is writing the parameters and then finding the path, of which only the second can
fail. -/
theorem compile_eq (state : State) :
    state.compile = do
      let line ← queryString (.table state.table)
      let path ← state.path.mapError .validation
      return ⟨path, if line = "" then none else some line⟩ := by
  -- Only no parameters at all are written as the empty line.
  have query : (if state.queryString?.getD "" = "" then none
      else some (state.queryString?.getD "")) = state.queryString? := by
    have filled := queryString?_ne_empty state
    cases found : state.queryString? with
    | none => rfl
    | some line =>
        rw [found] at filled
        exact if_neg fun empty => filled (congrArg some empty)
  rw [queryString_table, compile]
  change _ = (state.path.mapError Error.validation).bind _
  rw [query]
  rfl

/-! ## Queries that ask for nothing -/

/-- Nothing is asked for but a place to look in. -/
structure AsksNothing (state : State) : Prop where
  predicates : state.predicates = none
  selected : state.selected = none
  sortKey : state.sortKey.getD "" = ""
  skip : state.skip.getD 0 = 0
  take : state.take.getD 0 = 0

private theorem parameters_eq_nil_iff (wellFormed : state.WellFormed index) :
    state.parameters = [] ↔ state.AsksNothing := by
  have predicates : state.equalities = [] ↔ state.predicates = none := by
    have filled := wellFormed.predicates
    rw [equalities]
    cases present : state.predicates with
    | none => simp
    | some predicates => simpa using (filled predicates present).1
  have selected : state.selected.getD [] = [] ↔ state.selected = none := by
    have filled := wellFormed.selected
    cases present : state.selected with
    | none => simp
    | some fields => simpa using filled fields present
  have none_counted (name : String) (count : Option Nat) :
      counted name count = [] ↔ count.getD 0 = 0 := by
    simp [counted]
  rw [parameters_eq, pairs]
  simp only [List.append_eq_nil_iff, none_counted, List.map_eq_nil_iff, selected]
  constructor
  · rintro ⟨⟨⟨⟨equalities, fields⟩, sortKey⟩, skip⟩, take⟩
    exact ⟨predicates.mp (by simpa using equalities), fields, by simpa using sortKey, skip, take⟩
  · rintro ⟨nothing, fields, sortKey, skip, take⟩
    exact ⟨⟨⟨⟨if_pos (predicates.mpr nothing), fields⟩, if_pos sortKey⟩, skip⟩, take⟩

/-! ## Queries that do not compile -/

private theorem filter_eq_none_iff {name : Option String} :
    name.filter (· ≠ "") = none ↔ name.getD "" = "" := by
  cases name <;> simp

/-- What keeps a query from being sent. -/
inductive Unsendable (state : State) : Prop where
  | index {name : String} : state.indexName? = some name →
      (∃ piece ∈ Text.piecesOf '/' name, piece = "" ∨ piece = "." ∨ piece = "..") →
      Unsendable state
  | collection {name : String} : state.indexName? = none → state.collection? = some name →
      name = "." ∨ name = ".." → Unsendable state
  | nothing : state.indexName? = none → state.collection?.getD "" = "" → state.AsksNothing →
      Unsendable state

private theorem unsendable_of_not_acceptable (wellFormed : state.WellFormed index)
    (refused : ¬ state.Acceptable) : state.Unsendable := by
  cases named : state.indexName? with
  | some name =>
      simp only [Acceptable, target_of_index named, PathSegment.AcceptablePath, not_forall] at refused
      obtain ⟨piece, member, bad⟩ := refused
      exact .index named ⟨piece, member, PathSegment.not_acceptable_iff.mp bad⟩
  | none =>
      simp only [Acceptable, target_of_dynamic named] at refused
      cases narrowed : state.collection?.filter (· ≠ "") with
      | some name =>
          rw [narrowed] at refused
          obtain ⟨collection, present⟩ := Option.filter_eq_some_iff.mp narrowed
          have filled : name ≠ "" := by simpa using present
          have dots := (PathSegment.not_acceptable_iff.mp refused).resolve_left filled
          exact .collection named collection dots
      | none =>
          rw [narrowed] at refused
          exact .nothing named (filter_eq_none_iff.mp narrowed)
            ((parameters_eq_nil_iff wellFormed).mp (not_not.mp refused))

private theorem not_acceptable_of_unsendable (wellFormed : state.WellFormed index)
    (unsendable : state.Unsendable) : ¬ state.Acceptable := by
  cases unsendable with
  | index named bad =>
      obtain ⟨piece, member, bad⟩ := bad
      simp only [Acceptable, target_of_index named]
      intro acceptable
      exact PathSegment.not_acceptable_iff.mpr bad (acceptable piece member)
  | @collection name named collection dots =>
      have filled : name ≠ "" := by rcases dots with rfl | rfl <;> decide
      have narrowed : state.collection?.filter (· ≠ "") = some name := by
        simp [collection, filled]
      simp only [Acceptable, target_of_dynamic named, narrowed]
      exact PathSegment.not_acceptable_iff.mpr (.inr dots)
  | nothing named unnamed asksNothing =>
      simp only [Acceptable, target_of_dynamic named, filter_eq_none_iff.mpr unnamed]
      exact not_not.mpr ((parameters_eq_nil_iff wellFormed).mpr asksNothing)

end State

/-! ## Texts of compiled queries -/

/-- A text taken apart at its first question mark. -/
def Compiled.ofText (text : String) : Compiled :=
  ⟨String.ofList (text.toList.takeWhile (· != '?')),
    match text.toList.dropWhile (· != '?') with
    | [] => none
    | _ :: query => some (String.ofList query)⟩

theorem Compiled.ofText_text {compiled : Compiled} (plain : '?' ∉ compiled.path.toList) :
    ofText compiled.text = compiled := by
  obtain ⟨path, query⟩ := compiled
  have apart : ∀ char ∈ path.toList, (char != '?') = true := by
    intro char member
    exact bne_iff_ne.mpr fun same => plain (same ▸ member)
  cases query with
  | none =>
      have written : (Compiled.text ⟨path, none⟩).toList = path.toList := by simp [text]
      rw [ofText, written, List.takeWhile_eq_self_iff.mpr apart, List.dropWhile_eq_nil_iff.mpr apart,
        String.ofList_toList]
  | some query =>
      have written : (Compiled.text ⟨path, some query⟩).toList =
          path.toList ++ '?' :: query.toList := by
        simp [text]
      rw [ofText, written, List.takeWhile_append_of_pos apart, List.dropWhile_append_of_pos apart,
        List.takeWhile_cons_of_neg (by decide), List.dropWhile_cons_of_neg (by decide),
        List.append_nil, String.ofList_toList]
      simp only [String.ofList_toList]

namespace State

variable {state : State} {compiled : Compiled}

theorem not_mem_path {char : Char} (compiles : state.compile = .ok compiled) (slash : char ≠ '/')
    (outside : Url.isSegmentChar char = false) : char ∉ compiled.path.toList := by
  obtain ⟨_, rfl⟩ := acceptable_of_compile compiles
  intro member
  rw [State.compiled, Text.toList_join] at member
  rcases Text.mem_of_mem_intercalate member with separator | ⟨_, found, inside⟩
  · exact slash (List.mem_singleton.mp separator)
  · simp only [List.map_map, List.mem_map] at found
    obtain ⟨name, _, rfl⟩ := found
    cases outside.symm.trans (Url.isSegmentChar_of_mem_written inside)

/-- Whatever steps a query is made by, it compiles unless one of its names is refused or it has
neither a name nor a parameter; nothing but its caller is at fault then. A compiled query has
parameters exactly if it asks for something, and its text tells them from its path. -/
theorem compiles_unless_unsendable (index : Option String) (steps : List Step) :
    let state := (State.start index).steps steps
    ((∃ error, state.compile = .error error) ↔ state.Unsendable) ∧
      (∀ error, state.compile = .error error → ∃ misuse, error = .validation misuse) ∧
      (state.compile = do
        let line ← queryString (.table state.table)
        let path ← state.path.mapError .validation
        return ⟨path, if line = "" then none else some line⟩) ∧
      queryString (.table state.table) = .ok (state.queryString?.getD "") ∧
      ∀ compiled, state.compile = .ok compiled →
        (compiled.query = none ↔ state.AsksNothing) ∧ compiled.query ≠ some "" ∧
          '?' ∉ compiled.path.toList ∧ '#' ∉ compiled.path.toList ∧
          Compiled.ofText compiled.text = compiled := by
  intro state
  have wellFormed := wellFormed_steps index steps
  refine ⟨⟨?_, ?_⟩, ?_, compile_eq state, queryString_table state, ?_⟩
  · rintro ⟨error, failed⟩
    refine unsendable_of_not_acceptable wellFormed fun acceptable => ?_
    cases failed.symm.trans (compile_of_acceptable acceptable)
  · intro unsendable
    obtain ⟨misuse, failed⟩ :=
      compile_of_not_acceptable (not_acceptable_of_unsendable wellFormed unsendable)
    exact ⟨_, failed⟩
  · intro error failed
    by_cases acceptable : state.Acceptable
    · cases failed.symm.trans (compile_of_acceptable acceptable)
    · obtain ⟨misuse, refused⟩ := compile_of_not_acceptable acceptable
      exact ⟨misuse, Except.error.inj (failed.symm.trans refused)⟩
  · intro compiled compiles
    have noMark : '?' ∉ compiled.path.toList := not_mem_path compiles (by decide) (by decide)
    have noHash : '#' ∉ compiled.path.toList := not_mem_path compiles (by decide) (by decide)
    have query : compiled.query = state.queryString? := by
      rw [(acceptable_of_compile compiles).2]
      rfl
    refine ⟨?_, query ▸ queryString?_ne_empty state, noMark, noHash, Compiled.ofText_text noMark⟩
    rw [query, queryString?_eq_none_iff, parameters_eq_nil_iff wellFormed]

end State

end DocumentClient.Query
