import DocumentClient.Proofs.Storage
import Mathlib.Data.Finset.Basic

/-!
# Databases as a set of names

Against a server that keeps documents, the administration of databases is the administration of a
set of names. What each command comes to is said about such a set; the documents on the server are
those of the names in it, before and after every command.
-/

set_option autoImplicit false

namespace DocumentClient.Database

open PathSegment (Acceptable)

inductive Command where
  | contains (name : String)
  | create (name : String)
  | ensureExists (name : String)
  | remove (name : String)
deriving Repr, DecidableEq

inductive Answer where
  | present (whether : Bool)
  | done
deriving Repr, DecidableEq

namespace Command

def name : Command → String
  | .contains name | .create name | .ensureExists name | .remove name => name

def operation (settings : Settings) : Command → Operation Answer
  | .contains name => do return .present (← Database.contains settings name)
  | .create name => do
    Database.create settings name
    return .done
  | .ensureExists name => do
    Database.ensureExists settings name
    return .done
  | .remove name => do
    Database.remove settings name
    return .done

end Command

structure Entry where
  command : Command
  result : Except Error Answer
  sent : List Http.Request

/-- Some commands one after another, whatever each of them comes to. -/
def perform {σ : Type} (respond : σ → Http.Request → Http.Reply × σ) (settings : Settings) :
    List Command → σ → List Entry × σ
  | [], state => ([], state)
  | command :: commands, state =>
    let run := (command.operation settings).run respond state
    let (entries, last) := perform respond settings commands run.state
    (⟨command, run.result, run.sent⟩ :: entries, last)

/-! ## The set of names -/

/-- What a command comes to over a set of names: its result, the methods of its requests, and the
names behind it. -/
inductive Step (names : Finset String) :
    Command → Except Error Answer → List Http.Method → Finset String → Prop where
  | refused {command : Command} {misuse : Misuse} : ¬ Acceptable command.name →
      Step names command (.error (.validation misuse)) [] names
  | contains {name : String} : Acceptable name →
      Step names (.contains name) (.ok (.present (decide (name ∈ names)))) [.get] names
  | created {name : String} : Acceptable name → name ∉ names →
      Step names (.create name) (.ok .done) [.get, .put] (insert name names)
  | alreadyExists {name : String} : Acceptable name → name ∈ names →
      Step names (.create name) (.error (.alreadyExists name)) [.get] names
  | ensured {name : String} : Acceptable name → name ∉ names →
      Step names (.ensureExists name) (.ok .done) [.get, .put] (insert name names)
  | skipped {name : String} : Acceptable name → name ∈ names →
      Step names (.ensureExists name) (.ok .done) [.get] names
  | removed {name : String} : Acceptable name → name ∈ names →
      Step names (.remove name) (.ok .done) [.delete] (names.erase name)
  | missed {name : String} {body : Option Bytes} : Acceptable name → name ∉ names →
      Step names (.remove name)
        (.error (.http 404 (.unexpected "failed to delete database") body)) [.delete] names

inductive Steps : Finset String → List Entry → Finset String → Prop where
  | nil {names : Finset String} : Steps names [] names
  | cons {names middle last : Finset String} {entry : Entry} {entries : List Entry} :
      Step names entry.command entry.result (entry.sent.map (·.method)) middle →
      Steps middle entries last → Steps names (entry :: entries) last

/-- A command does not touch other names. -/
theorem Step.mem_of_ne {names after : Finset String} {command : Command}
    {result : Except Error Answer} {sent : List Http.Method}
    (step : Step names command result sent after) {other : String} (different : command.name ≠ other) :
    other ∈ after ↔ other ∈ names := by
  have apart := Ne.symm different
  cases step with
  | refused | contains | alreadyExists | skipped | missed => exact Iff.rfl
  | created | ensured =>
      rw [Finset.mem_insert]
      exact or_iff_right apart
  | removed =>
      rw [Finset.mem_erase]
      exact and_iff_right apart

/-- Nothing but its own name matters to a command. -/
theorem Step.of_same_name {names after others : Finset String} {command : Command}
    {result : Except Error Answer} {sent : List Http.Method}
    (step : Step names command result sent after)
    (same : command.name ∈ others ↔ command.name ∈ names) :
    ∃ own, Step others command result sent own ∧ (command.name ∈ own ↔ command.name ∈ after) := by
  cases step with
  | refused unacceptable => exact ⟨others, .refused unacceptable, same⟩
  | contains acceptable =>
      refine ⟨others, ?_, same⟩
      simp only [Command.name] at same
      rw [← decide_eq_decide.mpr same]
      exact .contains acceptable
  | created acceptable absent =>
      exact ⟨_, .created acceptable (absent ∘ same.mp), by simp [Command.name]⟩
  | alreadyExists acceptable present =>
      exact ⟨others, .alreadyExists acceptable (same.mpr present), same⟩
  | ensured acceptable absent =>
      exact ⟨_, .ensured acceptable (absent ∘ same.mp), by simp [Command.name]⟩
  | skipped acceptable present => exact ⟨others, .skipped acceptable (same.mpr present), same⟩
  | removed acceptable present =>
      exact ⟨_, .removed acceptable (same.mpr present), by simp [Command.name]⟩
  | missed acceptable absent => exact ⟨others, .missed acceptable (absent ∘ same.mp), same⟩

/-- What is seen of the commands about one name is seen without all the others too. -/
theorem Steps.filter {names last : Finset String} {entries : List Entry}
    (steps : Steps names entries last) (name : String) {others : Finset String}
    (same : name ∈ others ↔ name ∈ names) :
    ∃ own, Steps others (entries.filter (·.command.name = name)) own ∧
      (name ∈ own ↔ name ∈ last) := by
  induction steps generalizing others with
  | nil => exact ⟨others, .nil, same⟩
  | @cons names middle last entry entries step _ ih =>
      -- What is about other names keeps the membership of this one.
      by_cases about : entry.command.name = name
      · subst about
        obtain ⟨own, first, agree⟩ := step.of_same_name same
        obtain ⟨final, more, agree⟩ := ih agree
        refine ⟨final, ?_, agree⟩
        rw [List.filter_cons_of_pos (by simp)]
        exact .cons first more
      · obtain ⟨final, more, agree⟩ := ih (same.trans (step.mem_of_ne about).symm)
        refine ⟨final, ?_, agree⟩
        rw [List.filter_cons_of_neg (by simpa using about)]
        exact more

/-- A command is one call, whose value is then turned into an answer. -/
theorem operation_eq_call (settings : Settings) (command : Command) :
    ∃ (α : Type) (call : Call α) (answer : α → Answer),
      command.operation settings =
        (call.operation settings >>= fun value => pure (answer value)) ∧
      (call.Acceptable settings → Acceptable command.name) := by
  cases command with
  | contains name => exact ⟨Bool, .contains name, .present, rfl, And.right⟩
  | create name => exact ⟨Unit, .create name, fun _ => .done, rfl, And.right⟩
  | ensureExists name => exact ⟨Unit, .ensureExists name, fun _ => .done, rfl, And.right⟩
  | remove name => exact ⟨Unit, .drop name, fun _ => .done, rfl, And.right⟩

private theorem run_of_refused {σ : Type} {settings : Settings} {command : Command}
    (refused : ¬ Acceptable command.name) (respond : σ → Http.Request → Http.Reply × σ) (state : σ) :
    ∃ misuse, ((command.operation settings).run respond state).result =
        .error (.validation misuse) ∧
      ((command.operation settings).run respond state).sent = [] ∧
      ((command.operation settings).run respond state).state = state := by
  obtain ⟨α, call, answer, same, named⟩ := operation_eq_call settings command
  rw [same]
  exact Call.run_bind_of_not_acceptable (fun acceptable => refused (named acceptable)) answer
    respond state

/-! ## The documents behind the names -/

/-- Where the document of a database is kept, and what it holds. -/
def IsDocument (settings : Settings) (name text : String) (content : Bytes) : Prop :=
  ∃ url, (Endpoint.database name).urlFor settings = .ok url ∧ url.text = text ∧
    encodeBody (document name) = .ok content

/-- What is kept are the documents of these names. -/
structure Mirrors (settings : Settings) (kept : String → Option Bytes)
    (names : Finset String) : Prop where
  acceptable : ∀ name ∈ names, Acceptable name
  kept_iff : ∀ text content,
    kept text = some content ↔ ∃ name ∈ names, IsDocument settings name text content

/-- Against a server a command comes to what it comes to over the names. -/
def Follows {σ : Type} (storage : Storage σ) (settings : Settings) (state : σ)
    (names : Finset String) (command : Command) : Prop :=
  let run := (command.operation settings).run storage.respond state
  ∃ after, Step names command run.result (run.sent.map (·.method)) after ∧
    Mirrors settings (storage.kept run.state) after

section

variable {σ : Type} {settings : Settings} {kept : String → Option Bytes} {names : Finset String}
  {name other : String} {url another : Url}

private theorem isDocument_of_urlFor (made : (Endpoint.database name).urlFor settings = .ok url) :
    IsDocument settings name url.text (utf8 (Call.documentText name)) :=
  ⟨url, made, rfl, Call.encodeBody_document name⟩

private theorem text_of_isDocument {text : String} {content : Bytes}
    (made : (Endpoint.database name).urlFor settings = .ok url)
    (document : IsDocument settings name text content) : text = url.text := by
  obtain ⟨another, again, same, _⟩ := document
  cases made.symm.trans again
  exact same.symm

private theorem content_of_isDocument {text : String} {content : Bytes}
    (first : IsDocument settings name text content) :
    content = utf8 (Call.documentText name) := by
  obtain ⟨_, _, _, encoded⟩ := first
  exact Except.ok.inj (encoded.symm.trans (Call.encodeBody_document name))

private theorem mirrors_empty (empty : ∀ text, kept text = none) : Mirrors settings kept ∅ where
  acceptable := by simp
  kept_iff := by simp [empty]

variable (accepted : settings.Accepted) (noQuery : settings.host.query = none)
  (noFragment : settings.host.fragment = none)
include accepted noQuery noFragment

theorem eq_of_text_eq (made : (Endpoint.database name).urlFor settings = .ok url)
    (otherMade : (Endpoint.database other).urlFor settings = .ok another)
    (same : url.text = another.text) : name = other := by
  have names := LeadsTo.names_eq (Settings.authority_of_accepted accepted)
    (Endpoint.leadsTo_of_urlFor accepted noQuery noFragment made).2
    (Endpoint.leadsTo_of_urlFor accepted noQuery noFragment otherMade).2 same
  simpa [Endpoint.allNames, Endpoint.selected, Endpoint.names] using names

private theorem eq_of_isDocument_text {content : Bytes}
    (made : (Endpoint.database name).urlFor settings = .ok url)
    (document : IsDocument settings other url.text content) : name = other := by
  obtain ⟨another, otherMade, same, _⟩ := document
  exact eq_of_text_eq accepted noQuery noFragment made otherMade same.symm

namespace Mirrors

variable (mirrors : Mirrors settings kept names)
  (made : (Endpoint.database name).urlFor settings = .ok url)
include mirrors made

private theorem isSome_iff : (kept url.text).isSome ↔ name ∈ names := by
  constructor
  · intro present
    obtain ⟨content, found⟩ := Option.isSome_iff_exists.mp present
    obtain ⟨other, member, document⟩ := (mirrors.kept_iff _ _).mp found
    rwa [eq_of_isDocument_text accepted noQuery noFragment made document]
  · intro member
    rw [(mirrors.kept_iff _ _).mpr ⟨name, member, isDocument_of_urlFor made⟩]
    rfl

private theorem insert (acceptable : Acceptable name) :
    Mirrors settings
      (Function.update kept url.text (some (utf8 (Call.documentText name)))) (insert name names) where
  acceptable := Finset.forall_mem_insert _ _ _ |>.mpr ⟨acceptable, mirrors.acceptable⟩
  kept_iff text content := by
    by_cases here : text = url.text
    · subst here
      rw [Function.update_self, Option.some_inj]
      constructor
      · rintro rfl
        exact ⟨name, Finset.mem_insert_self _ _, isDocument_of_urlFor made⟩
      · rintro ⟨other, _, document⟩
        obtain rfl := eq_of_isDocument_text accepted noQuery noFragment made document
        exact (content_of_isDocument document).symm
    · have elsewhere : ¬ IsDocument settings name text content :=
        fun document => here (text_of_isDocument made document)
      rw [Function.update_of_ne here, mirrors.kept_iff, Finset.exists_mem_insert]
      exact (or_iff_right elsewhere).symm

private theorem erase :
    Mirrors settings (Function.update kept url.text none) (names.erase name) where
  acceptable other member := mirrors.acceptable other (Finset.mem_of_mem_erase member)
  kept_iff text content := by
    by_cases here : text = url.text
    · subst here
      rw [Function.update_self]
      constructor
      · intro absent
        cases absent
      · rintro ⟨other, member, document⟩
        obtain rfl := eq_of_isDocument_text accepted noQuery noFragment made document
        exact absurd rfl (Finset.ne_of_mem_erase member)
    · have elsewhere : ¬ IsDocument settings name text content :=
        fun document => here (text_of_isDocument made document)
      rw [Function.update_of_ne here, mirrors.kept_iff]
      constructor
      · rintro ⟨other, member, document⟩
        refine ⟨other, Finset.mem_erase.mpr ⟨?_, member⟩, document⟩
        rintro rfl
        exact elsewhere document
      · rintro ⟨other, member, document⟩
        exact ⟨other, Finset.mem_of_mem_erase member, document⟩

end Mirrors

/-! ## Commands against a server -/

omit accepted noQuery noFragment in
private theorem follows_of_refused (storage : Storage σ) {state : σ} {command : Command}
    (mirrors : Mirrors settings (storage.kept state) names)
    (refused : ¬ Acceptable command.name) : Follows storage settings state names command := by
  obtain ⟨misuse, result, sent, last⟩ := run_of_refused refused storage.respond state
  refine ⟨names, ?_, ?_⟩
  · rw [result, sent]
    exact .refused refused
  · rwa [last]

section

variable (storage : Storage σ) {state : σ} (mirrors : Mirrors settings (storage.kept state) names)
  (acceptable : Acceptable name) (made : (Endpoint.database name).urlFor settings = .ok url)
include mirrors acceptable made

private theorem follows_contains : Follows storage settings state names (.contains name) := by
  have called : (Call.contains name).url settings = .ok url := made
  have present := mirrors.isSome_iff accepted noQuery noFragment made
  let request : Http.Request := { method := .get, url }
  have decides := storage.whether_answer state (rfl : request.method = .get) (.ends (.ok false))
    (.ok true)
  have known : Step names _ (.ok (.present (decide (name ∈ names)))) _ _ := .contains acceptable
  rw [Follows, Command.operation, Operation.run_bind_pure]
  by_cases member : name ∈ names
  · rw [if_pos (present.mpr member)] at decides
    obtain ⟨result, sent, last⟩ := storage.run_of_ends state called decides
    simp only [Call.operation] at result sent last
    rw [decide_eq_true member] at known
    rw [result, sent, last, storage.kept_get _ _ rfl]
    exact ⟨names, known, mirrors⟩
  · rw [if_neg (present.not.mpr member)] at decides
    obtain ⟨result, sent, last⟩ := storage.run_of_ends state called decides
    simp only [Call.operation] at result sent last
    rw [decide_eq_false member] at known
    rw [result, sent, last, storage.kept_get _ _ rfl]
    exact ⟨names, known, mirrors⟩

/-- A call that creates what it does not find sends a second request in that case only. -/
theorem follows_of_creating {command : Command} {call : Call Unit} {found : Except Error Unit}
    (same : command.operation settings =
      (call.operation settings >>= fun _ => pure Answer.done))
    (called : call.url settings = .ok url) (asks : (call.request url).method = .get)
    (reaction : ∀ response, call.reaction response =
      Call.whether response (.creates name ()) found)
    (ifFound : name ∈ names → Step names command (found.map fun _ => .done) [.get] names)
    (ifMissing : name ∉ names →
      Step names command (.ok .done) [.get, .put] (insert name names)) :
    Follows storage settings state names command := by
  have present := mirrors.isSome_iff accepted noQuery noFragment made
  have unchanged := storage.kept_get state _ asks
  have decides := storage.whether_answer state asks (.creates name ()) found
  rw [← reaction, Call.url_request] at decides
  rw [Follows, same, Operation.run_bind_pure]
  by_cases member : name ∈ names
  · rw [if_pos (present.mpr member)] at decides
    obtain ⟨result, sent, last⟩ := storage.run_of_ends state called decides
    rw [result, sent, last, unchanged, List.map_singleton, asks]
    exact ⟨names, ifFound member, mirrors⟩
  · rw [if_neg (present.not.mpr member)] at decides
    obtain ⟨result, sent, last⟩ := storage.run_of_creates state called decides
    have stored := storage.kept_put (storage.next state (call.request url))
      (Call.creation url name) rfl
    rw [unchanged, Call.creation, Option.getD_some] at stored
    rw [result, sent, last, Call.creation, stored, List.map_cons, List.map_singleton, asks]
    exact ⟨_, ifMissing member, mirrors.insert accepted noQuery noFragment made acceptable⟩

private theorem follows_remove (misses : storage.MissesAbsent) :
    Follows storage settings state names (.remove name) := by
  have called : (Call.drop name).url settings = .ok url := made
  have present := mirrors.isSome_iff accepted noQuery noFragment made
  have erased := mirrors.erase accepted noQuery noFragment made
  let request : Http.Request := { method := .delete, url }
  obtain ⟨result, sent, last⟩ := storage.run_of_ends state called rfl
  simp only [Call.operation] at result sent last
  rw [Follows, Command.operation, Operation.run_bind_pure, sent, last, storage.kept_delete _ _ rfl]
  by_cases member : name ∈ names
  · have status := storage.delete_status state request rfl (present.mpr member)
    have removed := result.trans (Call.expecting_of_status status _ _)
    rw [removed]
    exact ⟨_, .removed acceptable member, erased⟩
  · have nothing := Option.not_isSome_iff_eq_none.mp (present.not.mpr member)
    have status := misses state request rfl nothing
    have missed := result.trans (Call.expecting_of_other_status status (by decide) _ _)
    rw [Finset.erase_eq_of_notMem member] at erased
    rw [missed]
    exact ⟨names, .missed acceptable member, erased⟩

end

private theorem follows (storage : Storage σ) (misses : storage.MissesAbsent) {state : σ}
    (mirrors : Mirrors settings (storage.kept state) names) (command : Command) :
    Follows storage settings state names command := by
  by_cases acceptable : Acceptable command.name
  · obtain ⟨url, made⟩ := exists_documentUrl accepted acceptable
    cases command with
    | contains name =>
        exact follows_contains accepted noQuery noFragment storage mirrors acceptable made
    | create name =>
        have called : (Call.create name).url settings = .ok url := made
        exact follows_of_creating accepted noQuery noFragment storage mirrors acceptable made rfl
          called rfl (fun _ => rfl) (.alreadyExists acceptable) (.created acceptable)
    | ensureExists name =>
        have called : (Call.ensureExists name).url settings = .ok url := made
        exact follows_of_creating accepted noQuery noFragment storage mirrors acceptable made rfl
          called rfl (fun _ => rfl) (.skipped acceptable) (.ensured acceptable)
    | remove name =>
        exact follows_remove accepted noQuery noFragment storage mirrors acceptable made misses
  · exact follows_of_refused storage mirrors acceptable

private theorem steps_of_perform (storage : Storage σ) (misses : storage.MissesAbsent)
    (commands : List Command) {state : σ} (mirrors : Mirrors settings (storage.kept state) names) :
    let run := perform storage.respond settings commands state
    ∃ after, Steps names run.1 after ∧ Mirrors settings (storage.kept run.2) after := by
  induction commands generalizing state names with
  | nil => exact ⟨names, .nil, mirrors⟩
  | cons command commands ih =>
      obtain ⟨middle, step, mirrors⟩ :=
        follows accepted noQuery noFragment storage misses mirrors command
      obtain ⟨after, steps, mirrors⟩ := ih mirrors
      exact ⟨after, .cons step steps, mirrors⟩

end

private theorem commands_perform {σ : Type} (respond : σ → Http.Request → Http.Reply × σ)
    (settings : Settings) (commands : List Command) (state : σ) :
    (perform respond settings commands state).1.map (·.command) = commands := by
  induction commands generalizing state with
  | nil => rfl
  | cons command commands ih => exact congrArg (command :: ·) (ih _)

/-- Against a server that is empty at first, administering databases is administering a set of
names: command for command, and for each name as if there were no others. -/
theorem administration_refines_names {σ : Type} {settings : Settings} (accepted : settings.Accepted)
    (noQuery : settings.host.query = none) (noFragment : settings.host.fragment = none)
    (storage : Storage σ) (misses : storage.MissesAbsent) {start : σ}
    (empty : ∀ text, storage.kept start text = none) (commands : List Command) :
    let run := perform storage.respond settings commands start
    run.1.map (·.command) = commands ∧
      ∃ names, Steps ∅ run.1 names ∧ Mirrors settings (storage.kept run.2) names ∧
        ∀ name, ∃ own, Steps ∅ (run.1.filter (·.command.name = name)) own ∧
          (name ∈ own ↔ name ∈ names) := by
  refine ⟨commands_perform storage.respond settings commands start, ?_⟩
  obtain ⟨names, steps, mirrors⟩ := steps_of_perform accepted noQuery noFragment storage misses
    commands (mirrors_empty empty)
  refine ⟨names, steps, mirrors, ?_⟩
  intro name
  exact steps.filter name Iff.rfl

/-- The selected database does not have to be usable. -/
theorem administration_beside_unusable_database :
    let settings : Settings := ⟨Settings.localhost.host, some ".."⟩
    let commands : List Command := [.create "a/b", .remove "a%2Fb", .ensureExists ".", .remove "a/b"]
    let run := perform Storage.plain.respond settings commands fun _ => none
    ∃ names, Steps ∅ run.1 names ∧ Mirrors settings (Storage.plain.kept run.2) names := by
  have accepted : Settings.Accepted ⟨Settings.localhost.host, some ".."⟩ :=
    ⟨_, _, Settings.ofHost_localhost, rfl⟩
  obtain ⟨_, names, steps, mirrors, _⟩ := administration_refines_names accepted rfl rfl
    Storage.plain Storage.missesAbsent_plain (fun _ => rfl)
    [.create "a/b", .remove "a%2Fb", .ensureExists ".", .remove "a/b"]
  exact ⟨names, steps, mirrors⟩

end DocumentClient.Database
