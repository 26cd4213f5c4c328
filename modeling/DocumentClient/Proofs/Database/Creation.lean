import DocumentClient.Proofs.Concurrent
import DocumentClient.Proofs.Storage

/-!
# Creation beside others

Clients that look for the document of a database and put it where they do not find it, before a
server that takes one request at a time. A turn does one of a few things to the document, to the
requests served, and to the progress of one client; whatever each of these keeps holds in every
interleaving.
-/

set_option autoImplicit false

namespace DocumentClient.Database

open Concurrent

/-- A server that keeps a document at a URL, whatever else it does. -/
structure KeepsDocument {σ : Type} (respond : σ → Http.Request → Http.Reply × σ)
    (kept : σ → Option Bytes) (url : Url) : Prop where
  get_status (state : σ) (request : Http.Request) : request.method = .get → request.url = url →
    ∃ response, (respond state request).1 = .ok response ∧
      response.status = if (kept state).isSome then 200 else 404
  put_status (state : σ) (request : Http.Request) : request.method = .put → request.url = url →
    ∃ response, (respond state request).1 = .ok response ∧ response.status = 201
  kept_get (state : σ) (request : Http.Request) : request.method = .get → request.url = url →
    kept (respond state request).2 = kept state
  kept_put (state : σ) (request : Http.Request) : request.method = .put → request.url = url →
    kept (respond state request).2 = some (request.body.getD [])

theorem keepsDocument_of_storage {σ : Type} (storage : Storage σ) (url : Url) :
    KeepsDocument storage.respond (fun state => storage.kept state url.text) url where
  get_status state request get about := by
    subst about
    exact ⟨_, rfl, storage.get_status state request get⟩
  put_status state request put _ := ⟨_, rfl, storage.put_status state request put⟩
  kept_get state request get _ := congrFun (storage.kept_get state request get) url.text
  kept_put state request put about := by
    subst about
    exact (congrFun (storage.kept_put state request put) request.url.text).trans
      (Function.update_self _ _ _)

/-! ## One client -/

inductive Phase where
  | rests
  | looks
  | finds
  | misses
  | wrote
deriving DecidableEq

structure Progress where
  phase : Phase
  calls : Nat
  results : List (Except Error Unit)

def looking (url : Url) : Http.Request :=
  { method := .get, url }

/-- A call that creates what it does not find, by what it comes to if it finds it. -/
def creating (url : Url) (name : String) (known : Except Error Unit) : Operation Unit :=
  .send (looking url) fun
    | .error error => .done (.error error)
    | .ok response => (Call.whether response (.creates name ()) known).operation url

variable (url : Url) (name : String) (known : Except Error Unit)

/-- What is left of the call, but for its notes. -/
def Phase.left : Phase → Option (Operation Unit)
  | .rests => none
  | .looks => some (creating url name known)
  | .finds => some (.done known)
  | .misses => some (.send (Call.creation url name) fun
      | .error error => .done (.error error)
      | .ok response => .done (Call.expecting 201 "failed to create database" response (.ok ())))
  | .wrote => some (.done (.ok ()))

structure Fits (standing : Standing Unit) (progress : Progress) : Prop where
  left : standing.left = progress.phase.left url name known
  calls : standing.calls.map Operation.quiet =
    List.replicate progress.calls (creating url name known)
  results : standing.results = progress.results

section

variable {url name} {settings : Settings}

/-- Where the document of a database is does not depend on the database selected. -/
theorem urlFor_selected (made : (Endpoint.database name).urlFor settings = .ok url)
    (selected : Option String) :
    (Endpoint.database name).urlFor { settings with database := selected } = .ok url :=
  made

theorem quiet_create (made : (Endpoint.database name).urlFor settings = .ok url) :
    (create settings name).quiet = creating url name (.error (.alreadyExists name)) := by
  have called : (Call.create name).url settings = .ok url := made
  exact Call.quiet_operation called

theorem quiet_ensureExists (made : (Endpoint.database name).urlFor settings = .ok url) :
    (ensureExists settings name).quiet = creating url name (.ok ()) := by
  have called : (Call.ensureExists name).url settings = .ok url := made
  exact Call.quiet_operation called

end

/-- Everything that a turn may do to the document, to what has been served, and to the client whose
turn it is. -/
inductive Turn {ι : Type} (index : ι) (kept : Option Bytes) (served : List (ι × Http.Request)) :
    Progress → Option Bytes → List (ι × Http.Request) → Progress → Prop where
  | silent {progress : Progress} : Turn index kept served progress kept served progress
  | begins {calls : Nat} {results : List (Except Error Unit)} :
      Turn index kept served ⟨.rests, calls + 1, results⟩ kept served ⟨.looks, calls, results⟩
  | finds {calls : Nat} {results : List (Except Error Unit)} : kept.isSome →
      Turn index kept served ⟨.looks, calls, results⟩
        kept (served ++ [(index, looking url)]) ⟨.finds, calls, results⟩
  | misses {calls : Nat} {results : List (Except Error Unit)} : kept = none →
      Turn index kept served ⟨.looks, calls, results⟩
        kept (served ++ [(index, looking url)]) ⟨.misses, calls, results⟩
  | writes {calls : Nat} {results : List (Except Error Unit)} :
      Turn index kept served ⟨.misses, calls, results⟩
        (some (utf8 (Call.documentText name))) (served ++ [(index, Call.creation url name)])
        ⟨.wrote, calls, results⟩
  | endsFound {calls : Nat} {results : List (Except Error Unit)} :
      Turn index kept served ⟨.finds, calls, results⟩
        kept served ⟨.rests, calls, results ++ [known]⟩
  | endsWritten {calls : Nat} {results : List (Except Error Unit)} :
      Turn index kept served ⟨.wrote, calls, results⟩
        kept served ⟨.rests, calls, results ++ [.ok ()]⟩

section

variable {url name known} {ι σ : Type} {respond : σ → Http.Request → Http.Reply × σ}
  {kept : σ → Option Bytes} {index : ι} {server next : σ} {served more : List (ι × Http.Request)}
  {standing after : Standing Unit} {progress : Progress}

/-- A move of a client that fits its progress is one of these turns. -/
theorem turn_of_move (keeps : KeepsDocument respond kept url)
    (fits : Fits url name known standing progress)
    (move : Move respond index server served standing next more after) :
    ∃ later, Turn url name known index (kept server) served progress (kept next) more later ∧
      Fits url name known after later := by
  obtain ⟨phase, count, former⟩ := progress
  obtain ⟨left, calls, results⟩ := fits
  dsimp only at left calls results
  cases move with
  | silent => exact ⟨_, .silent, ⟨left, calls, results⟩⟩
  | begins =>
      cases phase with
      | rests =>
          cases count with
          | zero => cases calls
          | succ count =>
              obtain ⟨first, others⟩ := List.cons.inj calls
              subst results
              exact ⟨_, .begins, ⟨congrArg some first, others, rfl⟩⟩
      | looks | finds | misses | wrote => cases left
  | ends =>
      subst results
      cases phase with
      | finds =>
          cases left
          exact ⟨_, .endsFound, ⟨rfl, calls, rfl⟩⟩
      | wrote =>
          cases left
          exact ⟨_, .endsWritten, ⟨rfl, calls, rfl⟩⟩
      | rests | looks | misses => cases left
  | served =>
      subst results
      -- the phase says which request it is, and what the server keeps says the answer
      cases phase with
      | looks =>
          obtain ⟨rfl, rfl⟩ := Operation.send.inj (Option.some.inj left)
          obtain ⟨response, replied, status⟩ := keeps.get_status server (looking url) rfl rfl
          have unchanged := keeps.kept_get server (looking url) rfl rfl
          rw [unchanged, replied]
          cases found : kept server with
          | none =>
              have decided : Call.whether response (.creates name ()) known = .creates name () := by
                simp [Call.whether, status, found]
              refine ⟨_, .misses rfl, ⟨?_, calls, rfl⟩⟩
              simp only [decided]
              rfl
          | some content =>
              have decided : Call.whether response (.creates name ()) known = .ends known := by
                simp [Call.whether, Call.expecting, status, found]
              refine ⟨_, .finds rfl, ⟨?_, calls, rfl⟩⟩
              simp only [decided]
              rfl
      | misses =>
          obtain ⟨rfl, rfl⟩ := Operation.send.inj (Option.some.inj left)
          obtain ⟨response, replied, status⟩ :=
            keeps.put_status server (Call.creation url name) rfl rfl
          have stored := keeps.kept_put server (Call.creation url name) rfl rfl
          have body : (Call.creation url name).body.getD [] = utf8 (Call.documentText name) := by
            rw [Call.creation, Option.getD_some]
          rw [stored, replied, body]
          refine ⟨_, .writes, ⟨?_, calls, rfl⟩⟩
          simp only [Call.expecting_of_status status, Phase.left]
      | rests | finds | wrote => cases left

theorem inFlight_of_fits {client : Client Unit}
    (fits : Fits url name known client.standing progress) :
    client.stage.inFlight = [] ∨
      (progress.phase = .looks ∧ client.stage.inFlight = [looking url]) ∨
      (progress.phase = .misses ∧ client.stage.inFlight = [Call.creation url name]) := by
  obtain nothing | ⟨request, goesOn, asked, left⟩ := client.stage.inFlight_cases
  · exact .inl nothing
  · have same : progress.phase.left url name known = some (.send request goesOn) :=
      fits.left.symm.trans left
    cases phase : progress.phase with
    | looks =>
        rw [phase] at same
        obtain ⟨rfl, _⟩ := Operation.send.inj (Option.some.inj same)
        exact .inr (.inl ⟨rfl, asked⟩)
    | misses =>
        rw [phase] at same
        obtain ⟨rfl, _⟩ := Operation.send.inj (Option.some.inj same)
        exact .inr (.inr ⟨rfl, asked⟩)
    | rests | finds | wrote =>
        rw [phase] at same
        cases same

/-! ## All clients -/

def Written (served : List (ι × Http.Request)) : Prop :=
  ∃ entry ∈ served, entry.2.method = .put

instance (served : List (ι × Http.Request)) : Decidable (Written served) :=
  inferInstanceAs (Decidable (∃ entry ∈ served, _))

@[simp] theorem not_written_nil : ¬ Written ([] : List (ι × Http.Request)) := by
  simp [Written]

@[simp] theorem written_append_looking :
    Written (served ++ [(index, looking url)]) ↔ Written served := by
  simp [Written, looking, or_and_right, exists_or]

@[simp] theorem written_append_creation :
    Written (served ++ [(index, Call.creation url name)]) :=
  ⟨(index, Call.creation url name), List.mem_append_right _ List.mem_cons_self, rfl⟩

def puts (requests : List Http.Request) : Nat :=
  requests.countP (·.method = .put)

theorem puts_append_looking (requests : List Http.Request) :
    puts (requests ++ [looking url]) = puts requests := by
  simp [puts, looking]

theorem puts_append_creation (requests : List Http.Request) :
    puts (requests ++ [Call.creation url name]) = puts requests + 1 := by
  simp [puts, Call.creation]

/-- What is known of the document: it is what was put, if anything was, and nothing is put over a
document that was there at the start. -/
structure Account (name : String) (start kept : Option Bytes) (served : List (ι × Http.Request)) :
    Prop where
  kept : kept = if Written served then some (utf8 (Call.documentText name)) else start
  absent : Written served → start = none

theorem Account.of_missing {start : Option Bytes} (account : Account name start none served) :
    ¬ Written served ∧ start = none := by
  have law := account.kept
  by_cases written : Written served
  · rw [if_pos written] at law
    cases law
  · rw [if_neg written] at law
    exact ⟨written, law.symm⟩

private theorem account_of_turn {start before after : Option Bytes} {later : Progress}
    (turn : Turn url name known index before served progress after more later)
    (account : Account name start before served)
    (missed : progress.phase = .misses → start = none) : Account name start after more := by
  obtain ⟨law, absent⟩ := account
  cases turn with
  | silent | begins | endsFound | endsWritten => exact ⟨law, absent⟩
  | finds | misses =>
      constructor
      · simpa using law
      · simpa using absent
  | writes =>
      constructor
      · simp
      · intro _
        exact missed rfl

theorem isSome_of_turn {before after : Option Bytes} {later : Progress}
    (turn : Turn url name known index before served progress after more later)
    (present : before.isSome) : after.isSome := by
  cases turn with
  | silent | begins | finds | misses | endsFound | endsWritten => exact present
  | writes => rfl

variable [DecidableEq ι]

theorem written_of_mem_own {request : Http.Request} (member : request ∈ own index served)
    (put : request.method = .put) : Written served := by
  obtain ⟨entry, found, rfl⟩ := List.mem_map.mp member
  exact ⟨entry, (List.mem_filter.mp found).1, put⟩

theorem puts_own_of_not_written (unwritten : ¬ Written served) (index : ι) :
    puts (own index served) = 0 := by
  rw [puts, List.countP_eq_zero]
  intro request member put
  exact unwritten (written_of_mem_own member (by simpa using put))

theorem own_of_turn {before after : Option Bytes} {later : Progress} {other : ι}
    (turn : Turn url name known index before served progress after more later)
    (different : index ≠ other) : own other more = own other served := by
  cases turn with
  | silent | begins | endsFound | endsWritten => rfl
  | finds | misses | writes => exact own_append_of_ne different

/-- What is known of each client holds in every interleaving if it is kept by the turns of the
client itself and by those of the others. -/
theorem run_of_turn {motive : Option Bytes → List (ι × Http.Request) → ι → Progress → Prop}
    {calls : ι → List (Operation Unit)} {count : ι → Nat} {start : Option Bytes}
    (keeps : KeepsDocument respond kept url)
    (same : ∀ index, (calls index).map Operation.quiet =
      List.replicate (count index) (creating url name known))
    (missed : ∀ {before : Option Bytes} {served : List (ι × Http.Request)} {index : ι}
      {progress : Progress}, motive before served index progress →
        progress.phase = .misses → start = none)
    (turns : ∀ {before after : Option Bytes} {served more : List (ι × Http.Request)} {index : ι}
      {progress later : Progress}, Account name start before served →
        Turn url name known index before served progress after more later →
          motive before served index progress → motive after more index later)
    (othersTurn : ∀ {before after : Option Bytes} {served more : List (ι × Http.Request)}
      {index other : ι} {progress later beside : Progress}, index ≠ other →
        Turn url name known index before served progress after more later →
          motive before served other beside → motive after more other beside)
    (begins : ∀ index, motive start [] index ⟨.rests, count index, []⟩)
    (starts : kept server = start) (schedule : List ι) :
    let system := (System.start server calls).run respond schedule
    Account name start (kept system.server) system.served ∧
      ∃ progress : ι → Progress,
        (∀ index, Fits url name known (system.clients index).standing (progress index)) ∧
        ∀ index, motive (kept system.server) system.served index (progress index) := by
  subst starts
  refine run_of_advance (motive := fun system =>
    Account name (kept server) (kept system.server) system.served ∧
      ∃ progress : ι → Progress,
        (∀ index, Fits url name known (system.clients index).standing (progress index)) ∧
        ∀ index, motive (kept system.server) system.served index (progress index))
    respond (System.start server calls) ?_ ?_ schedule
  · intro system index holds
    obtain ⟨account, progress, fits, each⟩ := holds
    obtain ⟨later, turn, fit⟩ :=
      turn_of_move keeps (fits index) (move_advance respond system index)
    -- only the client whose turn it is gets on
    refine ⟨account_of_turn turn account (missed (each index)),
      Function.update progress index later, ?_, ?_⟩
    · intro other
      by_cases own : other = index
      · subst own
        rw [Function.update_self]
        exact fit
      · rw [Function.update_of_ne own, clients_advance_of_ne respond system own]
        exact fits other
    · intro other
      by_cases own : other = index
      · subst own
        rw [Function.update_self]
        exact turns account turn (each other)
      · rw [Function.update_of_ne own]
        exact othersTurn (Ne.symm own) turn (each other)
  · constructor
    · constructor
      · exact (if_neg not_written_nil).symm
      · exact fun written => absurd written not_written_nil
    · exact ⟨fun index => ⟨.rests, count index, []⟩, fun index => ⟨rfl, same index, rfl⟩, begins⟩

end

end DocumentClient.Database
