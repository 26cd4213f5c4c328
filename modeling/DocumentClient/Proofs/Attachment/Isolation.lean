import DocumentClient.Proofs.Storage

/-!
# Attachments of many databases

Clients of one server that differ in the database that they have selected. What is read back under
a key is what was saved last under it through a client with the same database, whatever the others
do, and whatever their names and keys look like.
-/

set_option autoImplicit false

namespace DocumentClient.Attachment

open PathSegment (Acceptable AcceptablePath)

/-- The database of a client, if it has one. -/
abbrev Scope :=
  Option {name : String // Acceptable name}

def Scope.settings (base : Settings) : Scope → Settings
  | none => base.withoutDatabase
  | some name => base.withDatabase name

inductive Action where
  | save (upload : Upload)
  | get
  | remove
deriving Repr, DecidableEq

/-- Something that is done under a key through one of the clients. -/
structure Access where
  scope : Scope
  key : String
  action : Action
deriving DecidableEq

def Access.operation (base : Settings) (access : Access) : Operation (Option Attachment) :=
  let settings := access.scope.settings base
  match access.action with
  | .save upload => do
    Attachment.save settings access.key upload
    return none
  | .get => do return some (← Attachment.get settings access.key)
  | .remove => do
    Attachment.remove settings access.key
    return none

/-- The server behind a history, whatever each of the accesses came to. -/
def visit {σ : Type} (respond : σ → Http.Request → Http.Reply × σ) (base : Settings)
    (history : List Access) (start : σ) : σ :=
  history.foldl (fun state access => ((access.operation base).run respond state).state) start

/-- The content of a result, or the status that came instead. Of what else a server adds to its
answers nothing is known. -/
def seen (result : Except Error Attachment) : Except (Option Nat) Bytes :=
  (result.map (·.data)).mapError (·.status?)

/-! ## What was saved last -/

section

variable {scope : Scope} {key : String} {content : Bytes} {access : Access}
  {history : List Access}

/-- Nothing under the key in the scope is saved or removed. -/
def Quiet (scope : Scope) (key : String) (history : List Access) : Prop :=
  ∀ access ∈ history, access.scope = scope → access.key = key → access.action = .get

/-- The content was saved last under the key in the scope, and has not been removed since. -/
def Latest (scope : Scope) (key : String) (history : List Access) (content : Bytes) : Prop :=
  ∃ before upload after, history = before ++ ⟨scope, key, .save upload⟩ :: after ∧
    upload.content = content ∧ Quiet scope key after

def Action.apply (held : Option Bytes) : Action → Option Bytes
  | .save upload => some upload.content
  | .get => held
  | .remove => none

/-- What an access leaves under the key in the scope. -/
def effect (scope : Scope) (key : String) (held : Option Bytes) (access : Access) : Option Bytes :=
  if access.scope = scope ∧ access.key = key then access.action.apply held else held

private theorem latest_cons :
    Latest scope key (access :: history) content ↔
      (∃ upload, access = ⟨scope, key, .save upload⟩ ∧ upload.content = content ∧
        Quiet scope key history) ∨ Latest scope key history content := by
  constructor
  · rintro ⟨before, upload, after, same, saved, quiet⟩
    cases before with
    | nil =>
        cases same
        exact .inl ⟨upload, rfl, saved, quiet⟩
    | cons first before =>
        cases same
        exact .inr ⟨before, upload, after, rfl, saved, quiet⟩
  · rintro (⟨upload, rfl, saved, quiet⟩ | ⟨before, upload, after, rfl, saved, quiet⟩)
    · exact ⟨[], upload, history, rfl, saved, quiet⟩
    · exact ⟨access :: before, upload, after, rfl, saved, quiet⟩

private theorem quiet_cons :
    Quiet scope key (access :: history) ↔
      (access.scope = scope → access.key = key → access.action = .get) ∧
        Quiet scope key history :=
  List.forall_mem_cons

private theorem foldl_effect_eq_some {held : Option Bytes} :
    history.foldl (effect scope key) held = some content ↔
      Latest scope key history content ∨ (held = some content ∧ Quiet scope key history) := by
  induction history generalizing held with
  | nil => simp [Latest, Quiet]
  | cons access history ih =>
      rw [List.foldl_cons, ih, latest_cons, quiet_cons]
      -- What is held at first outlives a quiet history only.
      obtain ⟨otherScope, otherKey, action⟩ := access
      by_cases about : otherScope = scope ∧ otherKey = key
      · obtain ⟨rfl, rfl⟩ := about
        cases action with
        | save upload => simp [effect, Action.apply, or_comm]
        | get => simp [effect, Action.apply]
        | remove => simp [effect, Action.apply]
      · have unrelated (upload : Upload) :
            (⟨otherScope, otherKey, action⟩ : Access) ≠ ⟨scope, key, .save upload⟩ := by
          rintro ⟨⟩
          exact about ⟨rfl, rfl⟩
        simp [effect, about, unrelated, ← and_imp]

end

/-! ## Where attachments are kept -/

section

variable {σ : Type} {base : Settings} {scope other : Scope} {key otherKey : String}
  {url another : Url} {access : Access}

private theorem host_settings (base : Settings) (scope : Scope) :
    (scope.settings base).host = base.host := by
  cases scope <;> rfl

private theorem usable_settings (base : Settings) (scope : Scope) :
    (scope.settings base).Usable := by
  cases scope with
  | none =>
      intro database member
      cases member
  | some name =>
      intro database member
      cases member
      exact name.property

/-- An access is one call of its client, whose value is then kept if it is an attachment. -/
theorem operation_eq_call (base : Settings) (access : Access) :
    ∃ (α : Type) (call : Call α) (value : α → Option Attachment),
      access.operation base =
        (call.operation (access.scope.settings base) >>= fun result => pure (value result)) ∧
      (call.Acceptable (access.scope.settings base) → AcceptablePath access.key) := by
  obtain ⟨scope, key, action⟩ := access
  cases action with
  | save upload => exact ⟨Unit, .save key upload, fun _ => none, rfl, And.right⟩
  | get => exact ⟨Attachment, .get key, some, rfl, And.right⟩
  | remove => exact ⟨Unit, .remove key, fun _ => none, rfl, And.right⟩

private theorem run_of_refused (refused : ¬ AcceptablePath access.key)
    (respond : σ → Http.Request → Http.Reply × σ) (state : σ) :
    ∃ misuse, ((access.operation base).run respond state).result = .error (.validation misuse) ∧
      ((access.operation base).run respond state).sent = [] ∧
      ((access.operation base).run respond state).state = state := by
  obtain ⟨α, call, value, same, named⟩ := operation_eq_call base access
  rw [same]
  exact Call.run_bind_of_not_acceptable (fun acceptable => refused (named acceptable)) value
    respond state

private theorem kept_of_urlFor (storage : Storage σ) (state : σ)
    (made : (Endpoint.attachment access.key).urlFor (access.scope.settings base) = .ok url) :
    storage.kept ((access.operation base).run storage.respond state).state =
      Function.update (storage.kept state) url.text
        (access.action.apply (storage.kept state url.text)) := by
  obtain ⟨scope, key, action⟩ := access
  simp only at made
  cases action with
  | save upload =>
      have called : (Call.save key upload).url (scope.settings base) = .ok url := made
      obtain ⟨_, _, last⟩ := storage.run_of_ends state called rfl
      simp only [Call.operation] at last
      simp only [Access.operation, Operation.run_bind_pure]
      rw [last, storage.kept_put _ _ rfl]
      rfl
  | get =>
      have called : (Call.get key).url (scope.settings base) = .ok url := made
      obtain ⟨_, _, last⟩ := storage.run_of_ends state called rfl
      simp only [Call.operation] at last
      simp only [Access.operation, Operation.run_bind_pure, Action.apply, Function.update_eq_self]
      rw [last, storage.kept_get _ _ rfl]
  | remove =>
      have called : (Call.remove key).url (scope.settings base) = .ok url := made
      obtain ⟨_, _, last⟩ := storage.run_of_ends state called rfl
      simp only [Call.operation] at last
      simp only [Access.operation, Operation.run_bind_pure]
      rw [last, storage.kept_delete _ _ rfl]
      rfl

private theorem result_get (storage : Storage σ) (state : σ)
    (made : (Endpoint.attachment key).urlFor (scope.settings base) = .ok url) :
    ∃ response : Http.Response,
      ((Attachment.get (scope.settings base) key).run storage.respond state).result =
        Call.expecting 200 "failed to get attachment" response (.ok (ofResponse response)) ∧
      response = storage.answer state { method := .get, url } := by
  have called : (Call.get key).url (scope.settings base) = .ok url := made
  obtain ⟨result, _, _⟩ := storage.run_of_ends state called rfl
  exact ⟨_, result, rfl⟩

private theorem get_of_some (storage : Storage σ) (handsOut : storage.HandsOut) {state : σ}
    (made : (Endpoint.attachment key).urlFor (scope.settings base) = .ok url) {content : Bytes}
    (held : storage.kept state url.text = some content) :
    ∃ metadata, ((Attachment.get (scope.settings base) key).run storage.respond state).result =
      .ok ⟨content, metadata⟩ := by
  obtain ⟨response, result, answered⟩ := result_get storage state made
  have status := storage.get_status state { method := .get, url } rfl
  have body := handsOut state { method := .get, url } content rfl held
  rw [held, Option.isSome_some, if_pos rfl, ← answered] at status
  rw [← answered] at body
  subst body
  rw [result, Call.expecting_of_status status]
  exact ⟨_, rfl⟩

private theorem get_of_none (storage : Storage σ) {state : σ}
    (made : (Endpoint.attachment key).urlFor (scope.settings base) = .ok url)
    (held : storage.kept state url.text = none) :
    ∃ body, ((Attachment.get (scope.settings base) key).run storage.respond state).result =
      .error (.http 404 (.unexpected "failed to get attachment") body) := by
  obtain ⟨response, result, answered⟩ := result_get storage state made
  have status := storage.get_status state { method := .get, url } rfl
  rw [held, Option.isSome_none, if_neg Bool.false_ne_true, ← answered] at status
  rw [result, Call.expecting_of_other_status status (by decide)]
  exact ⟨_, rfl⟩

variable (accepted : base.Accepted) (noQuery : base.host.query = none)
  (noFragment : base.host.fragment = none)
include accepted noQuery noFragment

private theorem exists_urlFor (acceptable : AcceptablePath key) (scope : Scope) :
    ∃ url, (Endpoint.attachment key).urlFor (scope.settings base) = .ok url := by
  have same := host_settings base scope
  have named : (Endpoint.attachment key).Acceptable (scope.settings base) :=
    ⟨usable_settings base scope, acceptable⟩
  obtain ⟨url, made, _⟩ := Endpoint.urlFor_of_acceptable
    (Settings.accepted_of_host_eq accepted same) (same ▸ noQuery) (same ▸ noFragment) named
  exact ⟨url, made⟩

private theorem leadsTo_of_urlFor
    (made : (Endpoint.attachment key).urlFor (scope.settings base) = .ok url) :
    AcceptablePath key ∧
      LeadsTo base.host url (Endpoint.allNames (scope.settings base) (.attachment key)) none := by
  have same := host_settings base scope
  obtain ⟨acceptable, leads⟩ := Endpoint.leadsTo_of_urlFor
    (Settings.accepted_of_host_eq accepted same) (same ▸ noQuery) (same ▸ noFragment) made
  rw [same] at leads
  exact ⟨acceptable.2, leads⟩

/-- Neither the scope nor the key can be mistaken for another one. -/
theorem eq_of_text_eq
    (made : (Endpoint.attachment key).urlFor (scope.settings base) = .ok url)
    (otherMade : (Endpoint.attachment otherKey).urlFor (other.settings base) = .ok another)
    (same : url.text = another.text) : scope = other ∧ key = otherKey := by
  have names := LeadsTo.names_eq (Settings.authority_of_accepted accepted)
    (leadsTo_of_urlFor accepted noQuery noFragment made).2
    (leadsTo_of_urlFor accepted noQuery noFragment otherMade).2 same
  -- No key begins where a database would: the first names differ.
  cases scope with
  | none =>
      cases other with
      | none =>
          have pieces := List.tail_eq_of_cons_eq names
          exact ⟨rfl, Text.piecesOf_inj pieces⟩
      | some name => exact absurd (List.head_eq_of_cons_eq names) (by decide)
  | some name =>
      cases other with
      | none => exact absurd (List.head_eq_of_cons_eq names) (by decide)
      | some otherName =>
          have behind := List.tail_eq_of_cons_eq names
          have named := Subtype.ext (List.head_eq_of_cons_eq behind)
          have pieces := List.tail_eq_of_cons_eq (List.tail_eq_of_cons_eq behind)
          exact ⟨congrArg some named, Text.piecesOf_inj pieces⟩

private theorem kept_of_access (storage : Storage σ) (state : σ)
    (made : (Endpoint.attachment key).urlFor (scope.settings base) = .ok url) (access : Access) :
    storage.kept ((access.operation base).run storage.respond state).state url.text =
      effect scope key (storage.kept state url.text) access := by
  by_cases acceptable : AcceptablePath access.key
  · obtain ⟨another, otherMade⟩ :=
      exists_urlFor accepted noQuery noFragment acceptable access.scope
    rw [kept_of_urlFor storage state otherMade, effect]
    by_cases about : access.scope = scope ∧ access.key = key
    · obtain ⟨rfl, rfl⟩ := about
      cases made.symm.trans otherMade
      rw [Function.update_self, if_pos ⟨rfl, rfl⟩]
    · have apart : url.text ≠ another.text := fun same =>
        about (eq_of_text_eq accepted noQuery noFragment otherMade made same.symm)
      rw [Function.update_of_ne apart, if_neg about]
  · obtain ⟨_, _, _, last⟩ := run_of_refused acceptable storage.respond state
    have named := (leadsTo_of_urlFor accepted noQuery noFragment made).1
    rw [last, effect, if_neg]
    rintro ⟨_, rfl⟩
    exact acceptable named

private theorem kept_visit (storage : Storage σ)
    (made : (Endpoint.attachment key).urlFor (scope.settings base) = .ok url)
    (history : List Access) (start : σ) :
    storage.kept (visit storage.respond base history start) url.text =
      history.foldl (effect scope key) (storage.kept start url.text) := by
  induction history generalizing start with
  | nil => rfl
  | cons access history ih =>
      rw [visit, List.foldl_cons, List.foldl_cons]
      refine (ih _).trans ?_
      rw [kept_of_access accepted noQuery noFragment storage start made access]

/-- An access elsewhere changes nothing about what is read. -/
theorem seen_get_of_elsewhere (storage : Storage σ) (handsOut : storage.HandsOut)
    (elsewhere : ¬ (access.scope = scope ∧ access.key = key)) (state : σ) :
    let get := Attachment.get (scope.settings base) key
    let next := ((access.operation base).run storage.respond state).state
    seen (get.run storage.respond next).result = seen (get.run storage.respond state).result := by
  by_cases acceptable : AcceptablePath key
  · obtain ⟨url, made⟩ := exists_urlFor accepted noQuery noFragment acceptable scope
    have unchanged := kept_of_access accepted noQuery noFragment storage state made access
    rw [effect, if_neg elsewhere] at unchanged
    cases held : storage.kept state url.text with
    | none =>
        rw [held] at unchanged
        obtain ⟨body, before⟩ := get_of_none storage made held
        obtain ⟨otherBody, behind⟩ := get_of_none storage made unchanged
        simp only [before, behind]
        rfl
    | some content =>
        rw [held] at unchanged
        obtain ⟨metadata, before⟩ := get_of_some storage handsOut made held
        obtain ⟨otherMetadata, behind⟩ := get_of_some storage handsOut made unchanged
        simp only [before, behind]
        rfl
  · have refused : ¬ (Call.get key).Acceptable (scope.settings base) :=
      fun both => acceptable both.2
    obtain ⟨misuse, before, _⟩ := Call.run_of_not_acceptable refused storage.respond state
    obtain ⟨otherMisuse, behind, _⟩ := Call.run_of_not_acceptable refused storage.respond
      ((access.operation base).run storage.respond state).state
    simp only [Call.operation] at before behind
    simp only [before, behind]
    rfl

end

/-- Against a server that is empty at first, what is read under an acceptable key is what was saved
last under it in the same scope, unless it has been removed since, and then it is missing. An access
in another scope or under another key changes nothing about that. What is asked for under a refused
key never gets to the server. -/
theorem scopes_are_isolated {σ : Type} {base : Settings} (accepted : base.Accepted)
    (noQuery : base.host.query = none) (noFragment : base.host.fragment = none)
    (storage : Storage σ) (handsOut : storage.HandsOut) {start : σ}
    (empty : ∀ text, storage.kept start text = none) (scope : Scope) (key : String) :
    let get := Attachment.get (scope.settings base) key
    (AcceptablePath key → ∀ history : List Access,
      let run := get.run storage.respond (visit storage.respond base history start)
      (∀ content, Latest scope key history content →
        ∃ metadata, run.result = .ok ⟨content, metadata⟩) ∧
      ((∀ content, ¬ Latest scope key history content) →
        ∃ body, run.result = .error (.http 404 (.unexpected "failed to get attachment") body))) ∧
    (¬ AcceptablePath key → ∀ (action : Action) (state : σ),
      let run := (Access.operation base ⟨scope, key, action⟩).run storage.respond state
      (∃ misuse, run.result = .error (.validation misuse)) ∧ run.sent = [] ∧ run.state = state) ∧
    ∀ (access : Access) (state : σ), ¬ (access.scope = scope ∧ access.key = key) →
      let next := ((access.operation base).run storage.respond state).state
      seen (get.run storage.respond next).result = seen (get.run storage.respond state).result := by
  refine ⟨?_, ?_, ?_⟩
  · intro acceptable history
    obtain ⟨url, made⟩ := exists_urlFor accepted noQuery noFragment acceptable scope
    have held := kept_visit accepted noQuery noFragment storage made history start
    rw [empty] at held
    constructor
    · intro content latest
      exact get_of_some storage handsOut made
        (held.trans (foldl_effect_eq_some.mpr (.inl latest)))
    · intro never
      refine get_of_none storage made (held.trans (Option.eq_none_iff_forall_ne_some.mpr ?_))
      intro content found
      obtain latest | ⟨absent, _⟩ := foldl_effect_eq_some.mp found
      · exact never content latest
      · cases absent
  · intro refused action state
    have refused : ¬ AcceptablePath (Access.mk scope key action).key := refused
    obtain ⟨misuse, result, sent, last⟩ := run_of_refused refused storage.respond state
    exact ⟨⟨misuse, result⟩, sent, last⟩
  · intro access state elsewhere
    exact seen_get_of_elsewhere accepted noQuery noFragment storage handsOut elsewhere state

/-- A key that spells the way into the database of another client. -/
theorem key_like_a_database_is_apart :
    let scope : Scope := some ⟨"a", by decide⟩
    let history : List Access :=
      [⟨scope, "b", .save ⟨[1], ∅⟩⟩, ⟨none, "databases/a/static/b", .save ⟨[2], ∅⟩⟩,
        ⟨some ⟨"a/static", by decide⟩, "b", .remove⟩]
    ∃ metadata, ((Attachment.get (scope.settings Settings.localhost) "b").run
      Storage.plain.respond (visit Storage.plain.respond Settings.localhost history
        fun _ => none)).result = .ok ⟨[1], metadata⟩ := by
  intro scope history
  have acceptable : AcceptablePath "b" := by decide
  obtain ⟨reads, _⟩ := scopes_are_isolated Settings.accepted_localhost rfl rfl Storage.plain
    Storage.handsOut_plain (fun _ => rfl) scope "b"
  have latest : Latest scope "b" history [1] := by
    refine ⟨[], ⟨[1], ∅⟩, _, rfl, rfl, ?_⟩
    unfold Quiet
    decide +kernel
  exact (reads acceptable history).1 [1] latest

/-- Nothing can be missing under a refused key: it is not even asked for. -/
theorem empty_key_is_not_missing :
    ¬ ∀ (base : Settings) (history : List Access) (scope : Scope) (key : String),
      base.Accepted → base.host.query = none → base.host.fragment = none →
      (∀ content, ¬ Latest scope key history content) →
        ∃ fault body, ((Attachment.get (scope.settings base) key).run Storage.plain.respond
          (visit Storage.plain.respond base history fun _ => none)).result =
            .error (.http 404 fault body) := by
  intro claim
  have never : ∀ content, ¬ Latest none "" [] content := by
    rintro content ⟨before, upload, after, same, _⟩
    simp at same
  obtain ⟨fault, body, missing⟩ := claim Settings.localhost [] none "" Settings.accepted_localhost
    rfl rfl never
  have refused : ¬ (Call.get "").Acceptable (Scope.settings Settings.localhost none) := by
    intro both
    have named : AcceptablePath "" := both.2
    exact absurd named (by decide)
  obtain ⟨misuse, result, _⟩ := Call.run_of_not_acceptable refused Storage.plain.respond fun _ => none
  cases missing.symm.trans result

end DocumentClient.Attachment
