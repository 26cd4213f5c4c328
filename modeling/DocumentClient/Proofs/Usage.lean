import DocumentClient.Proofs.Outcome

/-!
# Usage errors

A usage error is found before anything is sent, and nothing is sent only if there is one. Behind a
first request no text is left that could turn out to be unusable.
-/

set_option autoImplicit false

namespace DocumentClient

/-- Whether something could not be written: a body, a query string or a URL. -/
def Error.isWriting : Error → Bool
  | .json _ | .form _ | .invalidUrl _ => true
  | _ => false

/-- An error that the service is at fault for: it was not what the caller asked for or wrote. -/
def Error.IsAnswer (error : Error) : Prop :=
  error.isUsage = false ∧ error.isWriting = false

namespace Call

variable {α σ : Type} {settings : Settings}

private theorem isAnswer_of_decodeBody {β : Type} {decoder : Json.Decoder β} {body : Bytes}
    {error : Error} (failed : decodeBody decoder body = .error error) : error.IsAnswer := by
  obtain ⟨fault, _, rfl⟩ := error_of_mapError failed
  exact ⟨rfl, rfl⟩

private theorem isAnswer_of_expecting {status : Nat} {action : String} {response : Http.Response}
    {result : Except Error α} {error : Error}
    (own : ∀ error, result = .error error → error.IsAnswer)
    (failed : expecting status action response result = .error error) : error.IsAnswer := by
  unfold expecting at failed
  split at failed
  · exact own error failed
  · cases failed
    exact ⟨rfl, rfl⟩

private theorem isAnswer_of_parseListing {body : Bytes} {error : Error}
    (failed : Database.parseListing body = .error error) : error.IsAnswer :=
  isAnswer_of_decodeBody (error_of_map failed)

private theorem isAnswer_of_whether {response : Http.Response} {absent : Reaction α}
    {present : Except Error α} {error : Error}
    (ifAbsent : ∀ error, absent ≠ .ends (.error error))
    (ifPresent : ∀ error, present = .error error → error.IsAnswer)
    (ends : whether response absent present = .ends (.error error)) : error.IsAnswer := by
  unfold whether at ends
  split at ends
  · exact absurd ends (ifAbsent error)
  · exact isAnswer_of_expecting ifPresent (Reaction.ends.inj ends)

/-- Whatever is answered, the error is about the answer. -/
theorem isAnswer_of_reaction {response : Http.Response} {call : Call α} {error : Error}
    (ends : call.reaction response = .ends (.error error)) : error.IsAnswer := by
  cases call with
  | results state decoder =>
      exact isAnswer_of_expecting (fun _ => isAnswer_of_decodeBody) (Reaction.ends.inj ends)
  | contains name => exact isAnswer_of_whether (by simp) (by simp) ends
  | create name =>
      refine isAnswer_of_whether (by simp) (fun error failed => ?_) ends
      cases failed
      exact ⟨rfl, rfl⟩
  | ensureExists name => exact isAnswer_of_whether (by simp) (by simp) ends
  | list =>
      exact isAnswer_of_expecting (fun _ => isAnswer_of_parseListing) (Reaction.ends.inj ends)
  | drop | get | save | remove =>
      exact isAnswer_of_expecting (by simp) (Reaction.ends.inj ends)
  | exchange => cases ends

/-- An error of a call that has a URL is about an answer, or was itself the reply to a request. -/
theorem error_of_outcome {respond : σ → Http.Request → Http.Reply × σ} {start : σ} {url : Url}
    {call : Call α} {error : Error} (failed : (call.outcome respond start url).1 = .error error) :
    error.IsAnswer ∨ ∃ state, ∃ request ∈ (call.outcome respond start url).2,
      (respond state request).1 = .error error := by
  unfold outcome at failed ⊢
  cases replied : respond start (call.request url) with
  | mk reply next =>
      rw [replied] at failed
      cases reply with
      | error other =>
          cases failed
          exact .inr ⟨start, call.request url, List.mem_cons_self, by rw [replied]⟩
      | ok response =>
          dsimp only at failed ⊢
          cases decided : call.reaction response with
          | ends result =>
              rw [decided] at failed
              cases failed
              exact .inl (isAnswer_of_reaction decided)
          | creates name value =>
              rw [decided, Reaction.outcome] at failed
              rw [Reaction.outcome]
              cases second : (respond next (creation url name)).1 with
              | error other =>
                  rw [second] at failed
                  cases failed
                  exact .inr ⟨next, creation url name, by simp, second⟩
              | ok answer =>
                  rw [second] at failed
                  exact .inl (isAnswer_of_expecting (by simp) failed)

private theorem outcome_sent_ne_nil (respond : σ → Http.Request → Http.Reply × σ) (start : σ)
    (url : Url) (call : Call α) : (call.outcome respond start url).2 ≠ [] := by
  unfold outcome
  split <;> simp

/-- Whatever is asked for, a usage error is the sign that nothing was sent. In particular there is
none between two requests. An error about writing is only passed on from whoever replies. -/
theorem usage_iff_nothing_sent (accepted : settings.Accepted) (call : Call α)
    (respond : σ → Http.Request → Http.Reply × σ)
    (foreign : ∀ state request error, (respond state request).1 = .error error →
      error.isUsage = false)
    (start : σ) :
    ((∃ error, ((call.operation settings).run respond start).result = .error error ∧
        error.isUsage = true) ↔ ((call.operation settings).run respond start).sent = []) ∧
      ∀ error, ((call.operation settings).run respond start).result = .error error →
        error.isWriting = true →
        ∃ state, ∃ request ∈ ((call.operation settings).run respond start).sent,
          (respond state request).1 = .error error := by
  by_cases acceptable : call.Acceptable settings
  · -- A request was sent, and what failed then was answered or passed on.
    obtain ⟨url, found⟩ := url_of_acceptable accepted acceptable
    obtain ⟨result, sent⟩ := Prod.mk.inj (run_operation found respond start)
    rw [result, sent]
    refine ⟨⟨?_, fun nothing => absurd nothing (outcome_sent_ne_nil respond start url call)⟩, ?_⟩
    · intro found
      obtain ⟨error, failed, usage⟩ := found
      rcases error_of_outcome failed with answer | ⟨state, request, _, replied⟩
      · cases usage.symm.trans answer.1
      · cases usage.symm.trans (foreign state request error replied)
    · intro error failed writing
      rcases error_of_outcome failed with answer | passedOn
      · cases writing.symm.trans answer.2
      · exact passedOn
  · -- Without a URL there is nothing to send.
    obtain ⟨misuse, result, sent, _⟩ := run_of_not_acceptable acceptable respond start
    rw [result, sent]
    refine ⟨⟨fun _ => rfl, fun _ => ⟨_, rfl, rfl⟩⟩, ?_⟩
    intro error failed writing
    cases failed
    cases writing

theorem save_with_dot_segment :
    ∃ error, (((save "a/../b" ⟨[7], ∅⟩).operation Settings.localhost).run
      (fun _ _ => (.ok { status := 201 }, ())) ()).result = .error error ∧
      error.isUsage = true := by
  have usage := usage_iff_nothing_sent Settings.accepted_localhost (save "a/../b" ⟨[7], ∅⟩)
    (fun _ _ => (.ok { status := 201 }, ())) (fun _ _ _ failed => by cases failed) ()
  exact usage.1.mpr (by decide +kernel)

end Call

end DocumentClient
