import DocumentClient.Proofs.Outcome
import DocumentClient.Proofs.Text.Stretches

/-!
# Queries on the wire

The query of the URL that a query is sent to, taken apart again. It says what has been asked for,
each thing once and in its order, and nothing else.
-/

set_option autoImplicit false

namespace DocumentClient.Query

/-! ## Equalities -/

/-- Field and value of one equality in writing: it is cut at its first colon. -/
def readTerm (chars : List Char) : Bytes × Bytes :=
  let read (chars : List Char) : Bytes := Percent.decode (chars.flatMap String.utf8EncodeChar)
  (read (chars.takeWhile (· != ':')), read ((chars.dropWhile (· != ':')).drop 1))

def readPredicate (line : String) : List (Bytes × Bytes) :=
  (Text.stretches " AND ".toList line.toList).map readTerm

private theorem readTerm_term (predicate : String × String) :
    readTerm (term predicate).toList = (utf8 predicate.1, utf8 predicate.2) := by
  have name : ∀ char ∈ Percent.encodeChars termEscapes predicate.1.toList,
      (char != ':') = true := by
    intro char member
    exact Percent.encodeChars_all (· != ':') (by decide) member
  have shape : (term predicate).toList = Percent.encodeChars termEscapes predicate.1.toList ++
      ':' :: Percent.encodeChars termEscapes predicate.2.toList := by
    simp [term, Percent.encode]
  rw [readTerm, shape, List.takeWhile_append_of_pos name, List.dropWhile_append_of_pos name,
    List.takeWhile_cons_of_neg (by decide), List.dropWhile_cons_of_neg (by decide), List.append_nil,
    List.drop_one, List.tail_cons]
  simp only [Percent.decode_encodeChars (show termEscapes '%' = true by decide), utf8]

private theorem blank_not_mem_term (predicate : String × String) :
    ' ' ∉ (term predicate).toList := by
  have solid (text : String) : ' ' ∉ Percent.encodeChars termEscapes text.toList := by
    intro member
    exact absurd (Percent.encodeChars_all (· != ' ') (by decide) member) (by decide)
  simp [term, Percent.encode, solid]

/-- Whatever fields and values hold, a line of equalities is read back. -/
theorem readPredicate_join {predicates : List (String × String)} (present : predicates ≠ []) :
    readPredicate (Text.join " AND " (predicates.map term)) =
      predicates.map fun predicate => (utf8 predicate.1, utf8 predicate.2) := by
  -- No term holds a blank, so a separator is found between terms only.
  have apart : ∀ text ∈ predicates.map (fun predicate => (term predicate).toList), ' ' ∉ text := by
    intro text found
    obtain ⟨predicate, _, rfl⟩ := List.mem_map.mp found
    exact blank_not_mem_term predicate
  have line : (Text.join " AND " (predicates.map term)).toList =
      List.intercalate " AND ".toList
        (predicates.map fun predicate => (term predicate).toList) := by
    rw [Text.toList_join, List.map_map]
    rfl
  have cut : Text.stretches " AND ".toList (List.intercalate " AND ".toList
      (predicates.map fun predicate => (term predicate).toList)) =
      predicates.map fun predicate => (term predicate).toList :=
    Text.stretches_intercalate ' ' "AND ".toList apart (by simpa using present)
  rw [readPredicate, line, cut, List.map_map]
  refine List.map_congr_left fun predicate _ => ?_
  rw [Function.comp_apply, readTerm_term]

namespace State

variable {state : State}

def equalities (state : State) : List (String × String) :=
  (state.predicates.map TextMap.entries).getD []

def counted (name : String) (count : Option Nat) : List (String × String) :=
  if 0 < count.getD 0 then [(name, toString (count.getD 0))] else []

/-- What a query is sent as, its equalities being written in a line. -/
def pairs (state : State) (line : String) : List (String × String) :=
  (if state.equalities = [] then [] else [("query", line)]) ++
    (state.selected.getD []).map (fun field => ("fetch", field)) ++
    (if state.sortKey.getD "" = "" then [] else [("sort", state.sortKey.getD "")]) ++
    counted "start" state.skip ++ counted "pageSize" state.take

private theorem line_ne_empty {predicates : List (String × String)} (present : predicates ≠ []) :
    Text.join " AND " (predicates.map term) ≠ "" := by
  cases predicates with
  | nil => exact absurd rfl present
  | cons predicate predicates => cases predicates <;> simp [Text.join, term]

theorem predicate?_eq (state : State) :
    state.predicate? = if state.equalities = [] then none
      else some (Text.join " AND " (state.equalities.map term)) := by
  unfold predicate? equalities
  cases state.predicates with
  | none => rfl
  | some predicates =>
      simp only [Option.map_some, Option.getD_some]
      split
      · rename_i nothing
        rw [nothing]
        rfl
      · rename_i present
        simp [line_ne_empty present]

theorem parameters_eq (state : State) :
    state.parameters = state.pairs (Text.join " AND " (state.equalities.map term)) := by
  have count (name : String) (count : Option Nat) :
      ((count.filter (0 < ·)).map fun count => (name, toString count)).toList =
        counted name count := by
    cases count with
    | none => rfl
    | some count =>
        by_cases positive : 0 < count
        · simp [counted, positive]
        · simp [counted, Nat.eq_zero_of_not_pos positive]
  have sort : ((state.sortKey.filter (· ≠ "")).map ("sort", ·)).toList =
      if state.sortKey.getD "" = "" then [] else [("sort", state.sortKey.getD "")] := by
    cases state.sortKey with
    | none => rfl
    | some key =>
        by_cases empty : key = ""
        · simp [empty]
        · simp [empty]
  rw [parameters, pairs, predicate?_eq]
  simp only [count, sort]
  split <;> rfl

theorem decode_queryString? (state : State) :
    Form.decode (state.queryString?.getD "") =
      state.parameters.map fun pair => (utf8 pair.1, utf8 pair.2) := by
  rw [queryString?_getD, Form.decode_encode]

/-- Whatever a query asks for, the URL that it is sent to says the same. The equalities are cut at
each separator, and each of them at its first colon. -/
theorem results_says_state {α σ : Type} {settings : Settings} (accepted : settings.Accepted)
    (noQuery : settings.host.query = none) (noFragment : settings.host.fragment = none)
    (usable : settings.Usable) {compiled : Compiled} (compiles : state.compile = .ok compiled)
    (decoder : Json.Decoder α) (respond : σ → Http.Request → Http.Reply × σ) (start : σ) :
    ∃ request, ((results settings state decoder).run respond start).sent = [request] ∧
      request.method = .get ∧ request.url.query = compiled.query ∧
      ∃ line, Form.decode (request.url.query.getD "") =
          (state.pairs line).map (fun pair => (utf8 pair.1, utf8 pair.2)) ∧
        (state.equalities ≠ [] → readPredicate line =
          state.equalities.map fun predicate => (utf8 predicate.1, utf8 predicate.2)) := by
  obtain ⟨acceptable, rfl⟩ := acceptable_of_compile compiles
  obtain ⟨number, authority, segments, canonical⟩ := Settings.canonical_of_accepted accepted
  obtain ⟨url, resolved, query⟩ : ∃ url, settings.urlFor state.compiled.text = .ok url ∧
      url.query = state.queryString? :=
    ⟨_, Settings.urlFor_of_written canonical noQuery noFragment usable
      (written_compiled acceptable), rfl⟩
  have found : (Call.results state decoder).url settings = .ok url := by
    rw [Call.url, Call.path, compiles]
    exact resolved
  have sent : ((results settings state decoder).run respond start).sent =
      ((Call.results state decoder).outcome respond start url).2 :=
    congrArg Prod.snd (Call.run_operation found respond start)
  rw [Call.sent_of_ends fun response => ⟨_, rfl⟩] at sent
  refine ⟨_, sent, rfl, query, _, ?_, readPredicate_join⟩
  rw [← parameters_eq, ← decode_queryString?, ← query]
  rfl

theorem results_says_separators :
    ∃ settings request, Settings.ofHost "http://localhost:8080/raven/" = .ok settings ∧
      ((results (settings.withDatabase "Köln")
        (dynamic.steps [.filter " AND " "a:b%", .and "" "+&=é", .skip 3, .take 0])
        Json.text).run Operation.scripted []).sent = [request] ∧
      ∃ line, Form.decode (request.url.query.getD "") =
          [(utf8 "query", utf8 line), (utf8 "start", utf8 "3")] ∧
        readPredicate line = [(utf8 " AND ", utf8 "a:b%"), (utf8 "", utf8 "+&=é")] := by
  let host : Url := { Settings.localhost.host with path := .absolute ["raven", ""] }
  have read : Settings.ofHost "http://localhost:8080/raven/" = .ok ⟨host, none⟩ := by
    decide +kernel
  have accepted : Settings.Accepted ⟨host, some "Köln"⟩ := ⟨_, _, read, rfl⟩
  have usable : Settings.Usable ⟨host, some "Köln"⟩ := by decide
  let state := dynamic.steps [.filter " AND " "a:b%", .and "" "+&=é", .skip 3, .take 0]
  have acceptable : state.Acceptable := by decide +kernel
  obtain ⟨request, sent, _, _, line, decoded, predicates⟩ :=
    results_says_state accepted rfl rfl usable (compile_of_acceptable acceptable) Json.text
      Operation.scripted []
  have equalities : state.equalities = [(" AND ", "a:b%"), ("", "+&=é")] := by decide +kernel
  have pairs : state.pairs line = [("query", line), ("start", "3")] := by
    have start : counted "start" state.skip = [("start", "3")] := by decide +kernel
    rw [State.pairs, equalities, start]
    rfl
  rw [pairs] at decoded
  rw [equalities] at predicates
  exact ⟨⟨host, none⟩, request, read, sent, line, decoded, predicates (by simp)⟩

end State

end DocumentClient.Query
