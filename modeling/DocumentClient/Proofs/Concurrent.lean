import DocumentClient.Proofs.Operation
import Mathlib.Data.List.DropRight
import Mathlib.Data.Nat.Find
import Mathlib.Logic.Function.Basic

/-!
# Clients beside one another

Any number of clients before one server. Each client makes its calls one after another, with one
request on its way at most, and the server takes one request at a time, from whichever client. In
every state a client has one next move, so that an interleaving is a list of clients in the order
of their turns. A client that is given turns again and again comes to the end of its calls.
-/

set_option autoImplicit false

namespace DocumentClient.Concurrent

/-- Where a client stands: between calls, about to act, or with a request or a reply on its way. -/
inductive Stage (α : Type) where
  | rests
  | acts (operation : Operation α)
  | asks (request : Http.Request) (next : Http.Reply → Operation α)
  | hears (reply : Http.Reply) (next : Http.Reply → Operation α)

structure Client (α : Type) where
  stage : Stage α := .rests
  calls : List (Operation α)
  results : List (Except Error α) := []

/-- The server, the clients, and the requests in the order in which they have been served. -/
structure System (ι σ α : Type) where
  server : σ
  clients : ι → Client α
  served : List (ι × Http.Request) := []

namespace System

variable {ι σ α : Type}

def start (server : σ) (calls : ι → List (Operation α)) : System ι σ α :=
  { server, clients := fun client => { calls := calls client } }

variable [DecidableEq ι]

def replace (system : System ι σ α) (index : ι) (client : Client α) : System ι σ α :=
  { system with clients := Function.update system.clients index client }

/-- The turn of a client. Where its request is on the way, it is the server that acts. -/
def advance (respond : σ → Http.Request → Http.Reply × σ) (system : System ι σ α) (index : ι) :
    System ι σ α :=
  let client := system.clients index
  match client.stage with
  | .rests =>
    match client.calls with
    | [] => system
    | call :: calls => system.replace index { client with stage := .acts call, calls }
  | .acts (.done result) =>
    system.replace index { client with stage := .rests, results := client.results ++ [result] }
  | .acts (.note _ next) => system.replace index { client with stage := .acts next }
  | .acts (.send request next) =>
    system.replace index { client with stage := .asks request next }
  | .asks request next =>
    let (reply, server) := respond system.server request
    { system.replace index { client with stage := .hears reply next } with
      server, served := system.served ++ [(index, request)] }
  | .hears reply next => system.replace index { client with stage := .acts (next reply) }

def run (respond : σ → Http.Request → Http.Reply × σ) (system : System ι σ α)
    (schedule : List ι) : System ι σ α :=
  schedule.foldl (advance respond) system

end System

/-! ## What was sent -/

section

variable {ι : Type} [DecidableEq ι]

/-- The requests of one client among those that have been served. -/
def own (index : ι) (served : List (ι × Http.Request)) : List Http.Request :=
  (served.filter (·.1 = index)).map (·.2)

/-- What has been served before the first request of a client. -/
def before (index : ι) (served : List (ι × Http.Request)) : List (ι × Http.Request) :=
  served.takeWhile (·.1 ≠ index)

variable {index other : ι} {served : List (ι × Http.Request)} {request : Http.Request}

theorem own_append_self :
    own index (served ++ [(index, request)]) = own index served ++ [request] := by
  simp [own]

theorem own_append_of_ne (different : other ≠ index) :
    own index (served ++ [(other, request)]) = own index served := by
  simp [own, different]

private theorem own_eq_nil_iff : own index served = [] ↔ ∀ entry ∈ served, entry.1 ≠ index := by
  simp [own]

theorem before_append_self (nothing : own index served = []) :
    before index (served ++ [(index, request)]) = served := by
  have others : ∀ entry ∈ served, decide (entry.1 ≠ index) = true := by
    simpa using own_eq_nil_iff.mp nothing
  rw [before, List.takeWhile_append_of_pos others]
  simp

theorem before_append_of_own_ne_nil (something : own index served ≠ [])
    (entry : ι × Http.Request) : before index (served ++ [entry]) = before index served := by
  induction served with
  | nil => exact absurd rfl something
  | cons first served ih =>
      by_cases same : first.1 = index
      · simp [before, same]
      · have rest : own index served ≠ [] := by simpa [own, same] using something
        simpa [before, same] using ih rest

end

namespace Stage

variable {α : Type}

def inFlight : Stage α → List Http.Request
  | .asks request _ => [request]
  | .rests | .acts _ | .hears .. => []

/-- What is left of a call, but for its notes. A request on its way is still to be served. -/
def left : Stage α → Option (Operation α)
  | .rests => none
  | .acts operation => some operation.quiet
  | .asks request next => some (.send request fun reply => (next reply).quiet)
  | .hears reply next => some (next reply).quiet

theorem inFlight_cases (stage : Stage α) :
    stage.inFlight = [] ∨
      ∃ request next, stage.inFlight = [request] ∧ stage.left = some (.send request next) := by
  cases stage with
  | asks request next => exact .inr ⟨request, _, rfl, rfl⟩
  | rests | acts | hears => exact .inl rfl

end Stage

/-- The requests that a client has sent: those that have been served, and one that may be on its
way. -/
def System.sent {ι σ α : Type} [DecidableEq ι] (system : System ι σ α) (index : ι) :
    List Http.Request :=
  own index system.served ++ (system.clients index).stage.inFlight

/-! ## Turns -/

/-- A client as the others and the server may know it. -/
structure Standing (α : Type) where
  left : Option (Operation α)
  calls : List (Operation α)
  results : List (Except Error α)

/-- The calls of a client: those that it has still to make, the one that it is making, and those
that have returned. -/
def Standing.total {α : Type} (standing : Standing α) : Nat :=
  standing.calls.length + standing.left.toList.length + standing.results.length

def Client.standing {α : Type} (client : Client α) : Standing α :=
  ⟨client.stage.left, client.calls, client.results⟩

variable {ι σ α : Type}

/-- Everything that a turn may do to the server, to what it has served, and to the client whose turn
it is. -/
inductive Move (respond : σ → Http.Request → Http.Reply × σ) (index : ι) (server : σ)
    (served : List (ι × Http.Request)) :
    Standing α → σ → List (ι × Http.Request) → Standing α → Prop where
  | silent {standing : Standing α} :
      Move respond index server served standing server served standing
  | begins {call : Operation α} {calls : List (Operation α)} {results : List (Except Error α)} :
      Move respond index server served ⟨none, call :: calls, results⟩
        server served ⟨some call.quiet, calls, results⟩
  | served {request : Http.Request} {next : Http.Reply → Operation α}
      {calls : List (Operation α)} {results : List (Except Error α)} :
      Move respond index server served ⟨some (.send request next), calls, results⟩
        (respond server request).2 (served ++ [(index, request)])
        ⟨some (next (respond server request).1), calls, results⟩
  | ends {result : Except Error α} {calls : List (Operation α)}
      {results : List (Except Error α)} :
      Move respond index server served ⟨some (.done result), calls, results⟩
        server served ⟨none, calls, results ++ [result]⟩

section

variable {respond : σ → Http.Request → Http.Reply × σ} {index : ι} {server next : σ}
  {served more : List (ι × Http.Request)} {standing after : Standing α}

theorem Move.total_eq (move : Move respond index server served standing next more after) :
    after.total = standing.total := by
  cases move with
  | silent | served => rfl
  | begins => simp [Standing.total]
  | ends => simp [Standing.total]; omega

theorem Move.results_grow (move : Move respond index server served standing next more after) :
    standing.results <+: after.results := by
  cases move with
  | silent | begins | served => exact List.prefix_rfl
  | ends => exact List.prefix_append _ _

end

variable [DecidableEq ι] (respond : σ → Http.Request → Http.Reply × σ) (system : System ι σ α)

theorem clients_advance_of_ne {index other : ι} (different : other ≠ index) :
    (system.advance respond index).clients other = system.clients other := by
  unfold System.advance
  dsimp only
  split
  · split
    · rfl
    · exact Function.update_of_ne different _ _
  all_goals exact Function.update_of_ne different _ _

theorem move_advance (index : ι) :
    Move respond index system.server system.served (system.clients index).standing
      (system.advance respond index).server (system.advance respond index).served
      ((system.advance respond index).clients index).standing := by
  unfold System.advance Client.standing
  generalize same : system.clients index = client
  obtain ⟨stage, calls, results⟩ := client
  cases stage with
  | rests =>
      cases calls with
      | nil =>
          dsimp only
          rw [same]
          exact .silent
      | cons call calls =>
          simp only [System.replace, Function.update_self]
          exact .begins
  | acts operation =>
      cases operation with
      | done result =>
          simp only [System.replace, Function.update_self]
          exact .ends
      | note event next =>
          simp only [System.replace, Function.update_self]
          exact .silent
      | send request next =>
          simp only [System.replace, Function.update_self]
          exact .silent
  | asks request next =>
      simp only [System.replace, Function.update_self]
      exact .served
  | hears reply next =>
      simp only [System.replace, Function.update_self]
      exact .silent

/-! ## Runs -/

theorem run_of_advance {motive : System ι σ α → Prop}
    (kept : ∀ (system : System ι σ α) (index : ι), motive system →
      motive (system.advance respond index))
    (holds : motive system) (schedule : List ι) :
    motive (system.run respond schedule) := by
  induction schedule generalizing system with
  | nil => exact holds
  | cons index schedule ih => exact ih (system.advance respond index) (kept system index holds)

theorem run_append (schedule more : List ι) :
    system.run respond (schedule ++ more) = (system.run respond schedule).run respond more :=
  List.foldl_append

private theorem total_run (schedule : List ι) (index : ι) :
    ((system.run respond schedule).clients index).standing.total =
      (system.clients index).standing.total := by
  refine run_of_advance (motive := fun later =>
    (later.clients index).standing.total = (system.clients index).standing.total) respond system
    ?_ rfl schedule
  intro later other same
  by_cases own : other = index
  · subst own
    exact (move_advance respond later other).total_eq.trans same
  · rw [clients_advance_of_ne respond later (Ne.symm own)]
    exact same

theorem results_run_grow (schedule : List ι) (index : ι) :
    (system.clients index).results <+: ((system.run respond schedule).clients index).results := by
  refine run_of_advance (motive := fun later =>
    (system.clients index).results <+: (later.clients index).results) respond system
    ?_ List.prefix_rfl schedule
  intro later other grown
  by_cases own : other = index
  · subst own
    exact grown.trans (move_advance respond later other).results_grow
  · rw [clients_advance_of_ne respond later (Ne.symm own)]
    exact grown

/-! ## Turns without an end -/

/-- A client is given a turn again and again. -/
def Fair (turns : ℕ → ι) (index : ι) : Prop :=
  ∀ number, ∃ later, number ≤ later ∧ turns later = index

theorem fair_of_mod {count : ℕ} {turns : ℕ → Fin count}
    (round : ∀ number, (turns number : ℕ) = number % count) (index : Fin count) :
    Fair turns index := by
  intro number
  refine ⟨count * number + index, ?_, ?_⟩
  · have bound : 1 * number ≤ count * number := Nat.mul_le_mul_right number index.pos
    omega
  · apply Fin.ext
    rw [round, Nat.mul_add_mod, Nat.mod_eq_of_lt index.isLt]

def System.behind (turns : ℕ → ι) (number : ℕ) : System ι σ α :=
  system.run respond ((List.range number).map turns)

section

variable {respond system} {turns : ℕ → ι} {index : ι}

private theorem behind_succ (number : ℕ) :
    system.behind respond turns (number + 1) =
      (system.behind respond turns number).advance respond (turns number) := by
  rw [System.behind, List.range_succ, List.map_append, run_append]
  rfl

private theorem clients_behind_add {number : ℕ} (count : ℕ)
    (others : ∀ between, number ≤ between → between < number + count → turns between ≠ index) :
    (system.behind respond turns (number + count)).clients index =
      (system.behind respond turns number).clients index := by
  induction count with
  | zero => rfl
  | succ count ih =>
      have last := others (number + count) (by omega) (by omega)
      rw [← Nat.add_assoc, behind_succ, clients_advance_of_ne _ _ last.symm]
      exact ih fun between lower upper => others between lower (by omega)

/-- Until its next turn nothing happens to a client. -/
theorem turn_comes {motive : Client α → Prop} (fair : Fair turns index) (number : ℕ)
    (turn : ∀ current : System ι σ α,
      current.clients index = (system.behind respond turns number).clients index →
        motive ((current.advance respond index).clients index)) :
    ∃ later, motive ((system.behind respond turns later).clients index) := by
  have comes : ∃ count, turns (number + count) = index := by
    obtain ⟨later, bound, own⟩ := fair number
    refine ⟨later - number, ?_⟩
    rw [Nat.add_sub_cancel' bound]
    exact own
  have others : ∀ between, number ≤ between → between < number + Nat.find comes →
      turns between ≠ index := by
    intro between lower upper own
    refine Nat.find_min comes (m := between - number) (by omega) ?_
    rw [Nat.add_sub_cancel' lower]
    exact own
  -- the first turn of the client behind `number`, which finds it as it was
  refine ⟨number + Nat.find comes + 1, ?_⟩
  rw [behind_succ, Nat.find_spec comes]
  exact turn _ (clients_behind_add (Nat.find comes) others)

private theorem call_ends (fair : Fair turns index) (operation : Operation α)
    {calls : List (Operation α)} {results : List (Except Error α)} (number : ℕ)
    (acts : (system.behind respond turns number).clients index =
      ⟨.acts operation, calls, results⟩) :
    ∃ later result, (system.behind respond turns later).clients index =
      ⟨.rests, calls, results ++ [result]⟩ := by
  -- what is left of the call gets smaller from one turn of the client to its next
  induction operation generalizing number with
  | done result =>
      obtain ⟨later, rests⟩ := turn_comes
        (motive := (· = ⟨.rests, calls, results ++ [result]⟩)) fair number fun current same => by
          rw [acts] at same
          simp [System.advance, System.replace, same]
      exact ⟨later, result, rests⟩
  | note event next ih =>
      obtain ⟨later, noted⟩ := turn_comes
        (motive := (· = ⟨.acts next, calls, results⟩)) fair number fun current same => by
          rw [acts] at same
          simp [System.advance, System.replace, same]
      exact ih later noted
  | send request next ih =>
      -- one turn to ask, one for the server, one to take the reply
      obtain ⟨later, asks⟩ := turn_comes
        (motive := (· = ⟨.asks request next, calls, results⟩)) fair number fun current same => by
          rw [acts] at same
          simp [System.advance, System.replace, same]
      obtain ⟨later, reply, hears⟩ := turn_comes
        (motive := fun client => ∃ reply, client = ⟨.hears reply next, calls, results⟩)
        fair later fun current same => by
          rw [asks] at same
          simp [System.advance, System.replace, same]
      obtain ⟨later, goesOn⟩ := turn_comes
        (motive := (· = ⟨.acts (next reply), calls, results⟩)) fair later
        fun current same => by
          rw [hears] at same
          simp [System.advance, System.replace, same]
      exact ih reply later goesOn

private theorem calls_end (fair : Fair turns index) {calls : List (Operation α)}
    {results : List (Except Error α)} (number : ℕ)
    (rests : (system.behind respond turns number).clients index = ⟨.rests, calls, results⟩) :
    ∃ later results, (system.behind respond turns later).clients index =
      ⟨.rests, [], results⟩ := by
  induction calls generalizing number results with
  | nil => exact ⟨number, results, rests⟩
  | cons call calls ih =>
      obtain ⟨later, begins⟩ := turn_comes
        (motive := (· = ⟨.acts call, calls, results⟩)) fair number fun current same => by
          rw [rests] at same
          simp [System.advance, System.replace, same]
      obtain ⟨later, result, rests⟩ := call_ends fair call later begins
      exact ih later rests

theorem all_return {server : σ} {calls : ι → List (Operation α)} (fair : Fair turns index) :
    ∃ later, (((System.start server calls).behind respond turns later).clients index).results.length
      = (calls index).length := by
  have rests : ((System.start server calls).behind respond turns 0).clients index =
    ⟨.rests, calls index, []⟩ := rfl
  obtain ⟨later, results, rests⟩ := calls_end fair 0 rests
  have total := total_run respond (System.start server calls) ((List.range later).map turns) index
  rw [← System.behind, rests] at total
  refine ⟨later, ?_⟩
  rw [rests]
  simpa [Standing.total, Client.standing, System.start, Stage.left] using total

end

end DocumentClient.Concurrent
