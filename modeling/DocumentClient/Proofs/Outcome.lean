import DocumentClient.Proofs.Call

/-!
# What calls come to

Against whoever replies, the replies alone decide what an acceptable call comes to and which
requests it hands over: one, or a second one to the same URL where a database is to be created.
-/

set_option autoImplicit false

namespace DocumentClient.Call

variable {α σ : Type} {settings : Settings}

/-- What is left behind the first response: the result, and the requests to come. -/
def Reaction.outcome (respond : σ → Http.Request → Http.Reply × σ) (state : σ) (url : Url) :
    Reaction α → Except Error α × List Http.Request
  | .ends result => (result, [])
  | .creates name value =>
    match (respond state (creation url name)).1 with
    | .error error => (.error error, [creation url name])
    | .ok response =>
      (expecting 201 "failed to create database" response (.ok value), [creation url name])

/-- The result of a call about a URL, and the requests that it hands over. A failure to reply ends
the call as it is. -/
def outcome (respond : σ → Http.Request → Http.Reply × σ) (start : σ) (url : Url)
    (call : Call α) : Except Error α × List Http.Request :=
  match respond start (call.request url) with
  | (.error error, _) => (.error error, [call.request url])
  | (.ok response, next) =>
    let (result, more) := (call.reaction response).outcome respond next url
    (result, call.request url :: more)

private theorem run_reaction (respond : σ → Http.Request → Http.Reply × σ) (state : σ) (url : Url)
    (reaction : Reaction α) :
    (((reaction.operation url).run respond state).result,
        ((reaction.operation url).run respond state).sent) =
      reaction.outcome respond state url := by
  cases reaction with
  | ends result => rfl
  | creates name value =>
      rw [Reaction.operation, Reaction.outcome, Operation.run]
      obtain ⟨reply, next⟩ := respond state (creation url name)
      cases reply <;> rfl

private theorem run_protocol (respond : σ → Http.Request → Http.Reply × σ) (start : σ) (url : Url)
    (call : Call α) :
    (((call.protocol url).run respond start).result, ((call.protocol url).run respond start).sent) =
      call.outcome respond start url := by
  rw [protocol, outcome, Operation.run]
  obtain ⟨reply, next⟩ := respond start (call.request url)
  cases reply with
  | error error => rfl
  | ok response =>
      dsimp only
      rw [← run_reaction]

/-- But for its events, a call with a URL runs as its protocol. -/
theorem run_eq_protocol {url : Url} {call : Call α} (found : call.url settings = .ok url)
    (respond : σ → Http.Request → Http.Reply × σ) (start : σ) :
    { (call.operation settings).run respond start with events := [] } =
      (call.protocol url).run respond start := by
  rw [← Operation.run_quiet, quiet_operation found]

theorem run_operation {url : Url} {call : Call α} (found : call.url settings = .ok url)
    (respond : σ → Http.Request → Http.Reply × σ) (start : σ) :
    (((call.operation settings).run respond start).result,
        ((call.operation settings).run respond start).sent) =
      call.outcome respond start url := by
  rw [← run_protocol, ← run_eq_protocol found]

theorem run_of_not_acceptable {call : Call α} (refused : ¬ call.Acceptable settings)
    (respond : σ → Http.Request → Http.Reply × σ) (start : σ) :
    ∃ misuse, ((call.operation settings).run respond start).result = .error (.validation misuse) ∧
      ((call.operation settings).run respond start).sent = [] ∧
      ((call.operation settings).run respond start).state = start := by
  obtain ⟨misuse, quiet⟩ := quiet_operation_of_not_acceptable refused
  have run := Operation.run_quiet respond (call.operation settings) start
  rw [quiet, Operation.run] at run
  exact ⟨misuse, (congrArg Operation.Run.result run).symm, (congrArg Operation.Run.sent run).symm,
    (congrArg Operation.Run.state run).symm⟩

theorem run_bind_of_not_acceptable {β : Type} {call : Call α} (refused : ¬ call.Acceptable settings)
    (transform : α → β) (respond : σ → Http.Request → Http.Reply × σ) (start : σ) :
    let operation := call.operation settings >>= fun value => pure (transform value)
    ∃ misuse, (operation.run respond start).result = .error (.validation misuse) ∧
      (operation.run respond start).sent = [] ∧ (operation.run respond start).state = start := by
  obtain ⟨misuse, result, sent, last⟩ := run_of_not_acceptable refused respond start
  dsimp only
  rw [Operation.run_bind_pure, result, sent, last]
  exact ⟨misuse, rfl, rfl, rfl⟩

theorem sent_of_ends {call : Call α}
    (ends : ∀ response, ∃ result, call.reaction response = .ends result)
    (respond : σ → Http.Request → Http.Reply × σ) (start : σ) (url : Url) :
    (call.outcome respond start url).2 = [call.request url] := by
  unfold outcome
  split
  · rfl
  · rename_i response next _
    obtain ⟨result, found⟩ := ends response
    rw [found]
    rfl

theorem outcome_of_ends {respond : σ → Http.Request → Http.Reply × σ} {start : σ} {url : Url}
    {call : Call α} {response : Http.Response} {result : Except Error α}
    (replied : (respond start (call.request url)).1 = .ok response)
    (ends : call.reaction response = .ends result) :
    call.outcome respond start url = (result, [call.request url]) := by
  rw [outcome]
  generalize respond start (call.request url) = answer at replied ⊢
  obtain ⟨reply, next⟩ := answer
  cases replied
  dsimp only
  rw [ends, Reaction.outcome]

theorem creation_mem_outcome {respond : σ → Http.Request → Http.Reply × σ} {start : σ} {url : Url}
    {call : Call α} {response : Http.Response} {name : String} {value : α}
    (replied : (respond start (call.request url)).1 = .ok response)
    (creates : call.reaction response = .creates name value) :
    creation url name ∈ (call.outcome respond start url).2 := by
  rw [outcome]
  generalize respond start (call.request url) = answer at replied ⊢
  obtain ⟨reply, next⟩ := answer
  cases replied
  dsimp only
  rw [creates, Reaction.outcome]
  refine List.mem_cons_of_mem _ ?_
  split <;> exact List.mem_singleton_self _

/-- What is handed over belongs to a URL. -/
theorem exists_url_of_mem_sent {call : Call α} {respond : σ → Http.Request → Http.Reply × σ}
    {start : σ} {request : Http.Request}
    (member : request ∈ ((call.operation settings).run respond start).sent) :
    ∃ url, call.url settings = .ok url := by
  have sent := congrArg Operation.Run.sent (Operation.run_quiet respond (call.operation settings) start)
  cases named : call.path with
  | error error =>
      rw [operation_of_path_error named] at member
      cases member
  | ok text =>
      cases found : (call.scope settings).urlFor text with
      | error error =>
          rw [quiet_operation_of_url_error named found] at sent
          rw [← sent] at member
          cases member
      | ok url => exact ⟨url, url_of_path named found⟩

/-- What is handed over is the request of the call, or makes the database that was missing. -/
theorem mem_outcome {respond : σ → Http.Request → Http.Reply × σ} {start : σ} {url : Url}
    {call : Call α} {request : Http.Request} (member : request ∈ (call.outcome respond start url).2) :
    request = call.request url ∨ ∃ response name value,
      call.reaction response = .creates name value ∧ request = creation url name := by
  unfold outcome at member
  split at member
  · exact .inl (List.mem_singleton.mp member)
  · rename_i response next _
    rcases List.mem_cons.mp member with own | later
    · exact .inl own
    · cases reacts : call.reaction response with
      | ends result =>
          rw [reacts] at later
          cases later
      | creates name value =>
          rw [reacts, Reaction.outcome] at later
          refine .inr ⟨response, name, value, reacts, ?_⟩
          split at later <;> exact List.mem_singleton.mp later

theorem eq_of_mem_sent {url : Url} {call : Call α} (made : call.url settings = .ok url)
    (ends : ∀ response, ∃ result, call.reaction response = .ends result)
    {respond : σ → Http.Request → Http.Reply × σ} {start : σ} {request : Http.Request}
    (member : request ∈ ((call.operation settings).run respond start).sent) :
    request = call.request url := by
  have sent := (congrArg Prod.snd (run_operation made respond start)).trans
    (sent_of_ends ends respond start url)
  have only : request ∈ [call.request url] := sent ▸ member
  exact List.mem_singleton.mp only

private theorem length_outcome_le (respond : σ → Http.Request → Http.Reply × σ) (start : σ)
    (url : Url) (call : Call α) : (call.outcome respond start url).2.length ≤ 2 := by
  have few (response : Http.Response) (next : σ) :
      ((call.reaction response).outcome respond next url).2.length ≤ 1 := by
    unfold Reaction.outcome
    split
    · simp
    · split <;> simp
  unfold outcome
  split
  · simp
  · rename_i response next _
    simpa using few response next

/-- Every acceptable call has its one outcome, whoever replies and whatever is replied. -/
theorem run_of_acceptable (accepted : settings.Accepted) {call : Call α}
    (acceptable : call.Acceptable settings) :
    ∃ url, call.url settings = .ok url ∧
      ∀ {σ : Type} (respond : σ → Http.Request → Http.Reply × σ) (start : σ),
        (((call.operation settings).run respond start).result,
            ((call.operation settings).run respond start).sent) =
          call.outcome respond start url ∧
        ((call.operation settings).run respond start).sent.length ≤ 2 := by
  obtain ⟨url, found⟩ := url_of_acceptable accepted acceptable
  refine ⟨url, found, fun respond start => ?_⟩
  have run := run_operation found respond start
  refine ⟨run, ?_⟩
  have bound := length_outcome_le respond start url call
  rwa [← run] at bound

theorem create_answered_409 :
    ∃ url, (create "Köln").url Settings.localhost = .ok url ∧
      let run := ((create "Köln").operation Settings.localhost).run Operation.scripted
        [.ok { status := 404 }, .ok { status := 409, body := [7] }]
      run.result = .error (.http 409 (.unexpected "failed to create database") (some [7])) ∧
        run.sent = [{ method := .get, url }, creation url "Köln"] := by
  have usable : ((create "Köln").scope Settings.localhost).Usable := by
    simp [Settings.Usable, scope, Database.scope, Settings.withoutDatabase]
  have named : PathSegment.Acceptable "Köln" := by decide
  have acceptable : (create "Köln").Acceptable Settings.localhost := ⟨usable, named⟩
  obtain ⟨url, found, runs⟩ := run_of_acceptable Settings.accepted_localhost acceptable
  obtain ⟨result, sent⟩ := Prod.mk.inj (runs Operation.scripted
    [.ok { status := 404 }, .ok { status := 409, body := [7] }]).1
  exact ⟨url, found, result, sent⟩

end DocumentClient.Call
