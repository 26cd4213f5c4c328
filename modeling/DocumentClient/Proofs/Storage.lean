import DocumentClient.Proofs.Outcome
import Mathlib.Logic.Function.Basic

/-!
# Servers that keep content

A server that keeps content by the URLs that it is put to. Statuses tell what is kept; of whatever
else is in an answer nothing is assumed. Against such a server every call comes to an end whose
result, requests and traces on the server are known.
-/

set_option autoImplicit false

namespace DocumentClient

structure Storage (σ : Type) where
  answer : σ → Http.Request → Http.Response
  next : σ → Http.Request → σ
  kept : σ → String → Option Bytes
  get_status (state : σ) (request : Http.Request) : request.method = .get →
    (answer state request).status = if (kept state request.url.text).isSome then 200 else 404
  put_status (state : σ) (request : Http.Request) : request.method = .put →
    (answer state request).status = 201
  delete_status (state : σ) (request : Http.Request) : request.method = .delete →
    (kept state request.url.text).isSome → (answer state request).status = 204
  kept_get (state : σ) (request : Http.Request) : request.method = .get →
    kept (next state request) = kept state
  kept_put (state : σ) (request : Http.Request) : request.method = .put →
    kept (next state request) =
      Function.update (kept state) request.url.text (some (request.body.getD []))
  kept_delete (state : σ) (request : Http.Request) : request.method = .delete →
    kept (next state request) = Function.update (kept state) request.url.text none

namespace Storage

variable {α σ : Type} {settings : Settings}

def respond (storage : Storage σ) (state : σ) (request : Http.Request) : Http.Reply × σ :=
  (.ok (storage.answer state request), storage.next state request)

/-- It does not confirm the removal of what it does not keep. -/
def MissesAbsent (storage : Storage σ) : Prop :=
  ∀ state request, request.method = .delete → storage.kept state request.url.text = none →
    (storage.answer state request).status = 404

/-- What it hands out is what it keeps. -/
def HandsOut (storage : Storage σ) : Prop :=
  ∀ state request content, request.method = .get →
    storage.kept state request.url.text = some content →
      (storage.answer state request).body = content

/-! ## A plain server -/

/-- A server that keeps content and nothing else. -/
def plain : Storage (String → Option Bytes) where
  answer kept request :=
    match request.method, kept request.url.text with
    | .get, some content => { status := 200, body := content }
    | .get, none | .delete, none => { status := 404 }
    | .put, _ => { status := 201 }
    | .delete, some _ => { status := 204 }
    | .post, _ => { status := 405 }
  next kept request :=
    match request.method with
    | .get | .post => kept
    | .put => Function.update kept request.url.text (some (request.body.getD []))
    | .delete => Function.update kept request.url.text none
  kept state := state
  get_status kept request get := by
    rw [get]
    cases kept request.url.text <;> rfl
  put_status kept request put := by
    rw [put]
  delete_status kept request delete present := by
    obtain ⟨content, found⟩ := Option.isSome_iff_exists.mp present
    rw [delete, found]
  kept_get kept request get := by rw [get]
  kept_put kept request put := by rw [put]
  kept_delete kept request delete := by rw [delete]

theorem missesAbsent_plain : plain.MissesAbsent := by
  intro kept request delete absent
  have absent : kept request.url.text = none := absent
  simp only [plain, delete, absent]

theorem handsOut_plain : plain.HandsOut := by
  intro kept request content get found
  have found : kept request.url.text = some content := found
  simp only [plain, get, found]

/-! ## Calls against a server -/

theorem run_of_ends (storage : Storage σ) (state : σ) {url : Url} {call : Call α}
    (made : call.url settings = .ok url) {result : Except Error α}
    (ends : call.reaction (storage.answer state (call.request url)) = .ends result) :
    ((call.operation settings).run storage.respond state).result = result ∧
      ((call.operation settings).run storage.respond state).sent = [call.request url] ∧
      ((call.operation settings).run storage.respond state).state =
        storage.next state (call.request url) := by
  have run := Call.run_eq_protocol made storage.respond state
  rw [Call.protocol, Operation.run, respond] at run
  simp only [ends, Call.Reaction.operation, Operation.run] at run
  obtain ⟨result, sent, _, state⟩ := Operation.Run.mk.inj run
  exact ⟨result, sent, state⟩

theorem run_of_creates (storage : Storage σ) (state : σ) {url : Url} {call : Call α}
    (made : call.url settings = .ok url) {name : String} {value : α}
    (creates : call.reaction (storage.answer state (call.request url)) = .creates name value) :
    ((call.operation settings).run storage.respond state).result = .ok value ∧
      ((call.operation settings).run storage.respond state).sent =
        [call.request url, Call.creation url name] ∧
      ((call.operation settings).run storage.respond state).state =
        storage.next (storage.next state (call.request url)) (Call.creation url name) := by
  have run := Call.run_eq_protocol made storage.respond state
  rw [Call.protocol, Operation.run, respond] at run
  simp only [creates, Call.Reaction.operation, Operation.run, respond] at run
  have stored := storage.put_status (storage.next state (call.request url))
    (Call.creation url name) rfl
  obtain ⟨result, sent, _, state⟩ := Operation.Run.mk.inj run
  rw [Call.expecting_of_status stored] at result
  exact ⟨result, sent, state⟩

theorem whether_answer (storage : Storage σ) (state : σ) {request : Http.Request}
    (get : request.method = .get) (absent : Call.Reaction α) (present : Except Error α) :
    Call.whether (storage.answer state request) absent present =
      if (storage.kept state request.url.text).isSome then .ends present else absent := by
  have status := storage.get_status state request get
  by_cases known : (storage.kept state request.url.text).isSome
  · rw [if_pos known] at status ⊢
    simp [Call.whether, Call.expecting, status]
  · rw [if_neg known] at status ⊢
    simp [Call.whether, status]

end Storage

end DocumentClient
