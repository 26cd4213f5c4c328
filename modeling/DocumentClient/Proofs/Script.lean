import DocumentClient.Proofs.Call
import DocumentClient.Proofs.Output

/-!
# Scripts

What a program does that makes one exchange after the other and stops at the first failure. Each
stage judges its own response, and a response that passes may give occasion to print something. No
stage depends on an earlier one, except that the first reply may decide which stages follow.
-/

set_option autoImplicit false

namespace DocumentClient

/-- What a reply comes to: a failure, or the lines to print. -/
abbrev Verdict := Except Error (List String)

namespace Verdict

def Passed (verdict : Verdict) : Prop :=
  ∃ lines, verdict = .ok lines

/-- Prints the lines and goes on, or ends with the failure. -/
def andThen (verdict : Verdict) (next : Operation Unit) : Operation Unit :=
  match verdict with
  | .error error => .done (.error error)
  | .ok lines => Operation.notingAll (lines.map .printed) next

/-- The lines of all verdicts in front of the first failure. -/
def lines : List Verdict → List String
  | [] | .error _ :: _ => []
  | .ok lines :: later => lines ++ Verdict.lines later

@[simp] theorem passed_ok (lines : List String) : Passed (.ok lines) :=
  ⟨lines, rfl⟩

@[simp] theorem not_passed_error (error : Error) : ¬ Passed (.error error) := by
  rintro ⟨_, same⟩
  cases same

end Verdict

structure Stage where
  request : Http.Request
  judge : Http.Response → Verdict

/-- Without a response a stage fails as the exchange did. -/
def Stage.verdict (stage : Stage) : Http.Reply → Verdict
  | .error error => .error error
  | .ok response => stage.judge response

namespace Script

variable {σ : Type}

def play : List Stage → Operation Unit
  | [] => .done (.ok ())
  | stage :: later => .send stage.request fun reply => (stage.verdict reply).andThen (play later)

/-- A script of which the first reply decides what follows. -/
def playFrom (first : Stage) (later : Http.Reply → List Stage) : Operation Unit :=
  .send first.request fun reply => (first.verdict reply).andThen (play (later reply))

/-- What the stages come to with someone who replies to all of them, in their order. -/
def verdicts (respond : σ → Http.Request → Http.Reply × σ) : List Stage → σ → List Verdict
  | [], _ => []
  | stage :: later, state =>
    let (reply, state) := respond state stage.request
    stage.verdict reply :: verdicts respond later state

/-- A run that takes the stages in their order, and each of them exactly if all earlier ones have
passed. It ends well if all of them pass, and otherwise with the first failure. -/
structure Follows (stages : List Stage) (judged : List Verdict)
    (run : Operation.Run σ Unit) : Prop where
  sent : run.sent <+: stages.map Stage.request
  reached : ∀ position < stages.length,
    position < run.sent.length ↔ ∀ verdict ∈ judged.take position, verdict.Passed
  succeeds : run.result = .ok () ↔ ∀ verdict ∈ judged, verdict.Passed
  fails : ∀ earlier error later, judged = earlier ++ .error error :: later →
    (∀ verdict ∈ earlier, verdict.Passed) → run.result = .error error
  printed : run.lines = Verdict.lines judged

/-! ## One stage more -/

private theorem follows_nil (state : σ) :
    Follows [] [] (⟨.ok (), [], [], state⟩ : Operation.Run σ Unit) where
  sent := List.nil_prefix
  reached := by simp
  succeeds := by simp
  fails := by simp
  printed := rfl

private theorem follows_of_failure (stage : Stage) (later : List Stage) (error : Error)
    (judged : List Verdict) (state : σ) :
    Follows (stage :: later) (.error error :: judged)
      ⟨.error error, [stage.request], [], state⟩ where
  sent := by simp
  reached := by
    intro position _
    cases position with
    | zero => simp
    | succ position => simp
  succeeds := by simp
  fails := by
    intro earlier other later split passed
    cases earlier with
    | nil =>
        cases split
        rfl
    | cons verdict earlier =>
        obtain ⟨rfl, _⟩ := List.cons.inj split
        exact absurd (passed _ List.mem_cons_self) (Verdict.not_passed_error error)
  printed := rfl

theorem Follows.cons {later : List Stage} {judged : List Verdict} {run : Operation.Run σ Unit}
    (follows : Follows later judged run) (stage : Stage) (lines : List String) :
    Follows (stage :: later) (.ok lines :: judged)
      { run with
        sent := stage.request :: run.sent
        events := lines.map .printed ++ run.events } where
  sent := by simpa using follows.sent
  reached := by
    intro position inside
    cases position with
    | zero => simp
    | succ position =>
        have earlier := follows.reached position (Nat.lt_of_succ_lt_succ inside)
        simp [earlier]
  succeeds := by simp [follows.succeeds]
  fails := by
    intro earlier error later split passed
    cases earlier with
    | nil => cases split
    | cons verdict earlier =>
        obtain ⟨_, split⟩ := List.cons.inj split
        exact follows.fails earlier error later split (List.forall_mem_cons.mp passed).2
  printed := by
    have printed : (lines.map Event.printed).filterMap Event.line? = lines := by
      rw [List.filterMap_map]
      exact List.filterMap_some
    rw [Operation.Run.lines, List.filterMap_append, printed, Verdict.lines, ← follows.printed]
    rfl

/-! ## The whole run -/

/-- Playing some stages is following them, whoever replies. -/
theorem follows_play (respond : σ → Http.Request → Http.Reply × σ) (stages : List Stage)
    (start : σ) :
    Follows stages (verdicts respond stages start) ((play stages).run respond start) := by
  -- The first verdict ends the run, or leaves a run of the later stages.
  induction stages generalizing start with
  | nil => exact follows_nil start
  | cons stage later ih =>
      rw [play, verdicts, Operation.run]
      cases judged : stage.verdict (respond start stage.request).1 with
      | error error =>
          simp only [judged]
          exact follows_of_failure stage later error _ _
      | ok lines =>
          simp only [judged, Verdict.andThen, Operation.run_notingAll]
          exact (ih (respond start stage.request).2).cons stage lines

private theorem run_playFrom (respond : σ → Http.Request → Http.Reply × σ) (first : Stage)
    (later : Http.Reply → List Stage) (start : σ) :
    (playFrom first later).run respond start =
      (play (first :: later (respond start first.request).1)).run respond start :=
  rfl

/-- An operation that plays a script but for its silent notes follows the script. -/
theorem follows_of_outline {operation : Operation Unit} {first : Stage}
    {later : Http.Reply → List Stage} (plays : operation.outline = playFrom first later)
    (respond : σ → Http.Request → Http.Reply × σ) (start : σ) :
    let stages := first :: later (respond start first.request).1
    Follows stages (verdicts respond stages start) (operation.run respond start) := by
  intro stages
  have follows : Follows stages (verdicts respond stages start)
      (operation.outline.run respond start) := by
    rw [plays, run_playFrom]
    exact follows_play respond stages start
  obtain ⟨result, sent, lines⟩ := Operation.run_outline respond operation start
  exact {
    sent := by rw [← sent]; exact follows.sent
    reached := by rw [← sent]; exact follows.reached
    succeeds := by rw [← result]; exact follows.succeeds
    fails := by rw [← result]; exact follows.fails
    printed := by rw [← lines]; exact follows.printed }

end Script

/-! ## Calls as stages -/

open Operation Script

/-- A call of one exchange is a stage, whatever is printed of its value. -/
theorem Call.outline_bind_of_ends {α : Type} {settings : Settings} {call : Call α} {url : Url}
    (found : call.url settings = .ok url) {finish : Http.Response → Except Error α}
    (ends : ∀ response, call.reaction response = .ends (finish response))
    {continuation : α → Operation Unit} {lines : α → List String} {later : List Stage}
    (goesOn : ∀ value, (continuation value).outline =
      notingAll ((lines value).map .printed) (play later)) :
    (call.operation settings >>= continuation).outline =
      play (⟨call.request url, fun response => (finish response).map lines⟩ :: later) := by
  rw [outline_bind, outline_eq_quiet (call.wordless_operation settings), quiet_operation found,
    protocol, send_bind, play]
  refine congrArg (send _) (funext fun reply => ?_)
  cases reply with
  | error error => rfl
  | ok response =>
      simp only [ends, Reaction.operation, Stage.verdict]
      cases finish response with
      | error error => rfl
      | ok value => exact goesOn value

end DocumentClient
