import DocumentClient.Proofs.Call
import DocumentClient.Proofs.Transport.Logging

/-!
# What operations print

Of the notes of an operation only the printed lines are output. So an operation that prints is
compared with a script after all other notes have been left out. Logging layers add only such notes,
and no call prints anything.
-/

set_option autoImplicit false

namespace DocumentClient

namespace Operation

variable {α β σ : Type}

def Run.lines (run : Run σ α) : List String :=
  run.events.filterMap Event.line?

/-- The same operation, of whose notes only the printed lines are left. -/
def outline : Operation α → Operation α
  | .done result => .done result
  | .note event next => if event.line?.isSome then .note event next.outline else next.outline
  | .send request next => .send request fun reply => (next reply).outline

private theorem outline_note_of_wordless {event : Event} (wordless : event.line? = none)
    (next : Operation α) : (note event next).outline = next.outline := by
  simp [outline, wordless]

theorem outline_bind (operation : Operation α) (continuation : α → Operation β) :
    (operation >>= continuation).outline =
      operation.outline >>= fun value => (continuation value).outline := by
  induction operation with
  | done result => cases result <;> rfl
  | note event next ih =>
      rw [note_bind, outline, outline, ih]
      split <;> rfl
  | send request next ih => exact congrArg (send request) (funext ih)

private theorem outline_notingAll_of_wordless {events : List Event}
    (wordless : ∀ event ∈ events, event.line? = none) (next : Operation α) :
    (notingAll events next).outline = next.outline := by
  induction events with
  | nil => rfl
  | cons event events ih =>
      have later := ih fun other member => wordless other (List.mem_cons_of_mem _ member)
      exact (outline_note_of_wordless (wordless event List.mem_cons_self) _).trans later

/-- Nothing of a run is missing in outline but the events that print nothing. -/
theorem run_outline (respond : σ → Http.Request → Http.Reply × σ) (operation : Operation α)
    (state : σ) :
    let run := operation.run respond state
    (operation.outline.run respond state).result = run.result ∧
      (operation.outline.run respond state).sent = run.sent ∧
      (operation.outline.run respond state).lines = run.lines := by
  induction operation generalizing state with
  | done result => exact ⟨rfl, rfl, rfl⟩
  | note event next ih =>
      obtain ⟨result, sent, lines⟩ := ih state
      rw [Run.lines, Run.lines] at lines
      cases printed : event.line? with
      | none =>
          rw [outline_note_of_wordless printed]
          exact ⟨result, sent, by simp [Run.lines, run, printed, lines]⟩
      | some line =>
          have kept : (note event next).outline = note event next.outline := by
            simp [outline, printed]
          rw [kept]
          exact ⟨result, sent, by simp [Run.lines, run, printed, lines]⟩
  | send request next ih =>
      obtain ⟨result, sent, lines⟩ := ih (respond state request).1 (respond state request).2
      exact ⟨result, congrArg (request :: ·) sent, lines⟩

/-! ## Logging -/

private theorem line?_inside (spans : List Log.Span) (event : Event) :
    (event.inside spans).line? = event.line? := by
  induction spans with
  | nil => rfl
  | cons span spans ih => exact ih

/-- Behind logging layers the same is printed. -/
theorem outline_through_logging (levels : List LogLevel) (operation : Operation α) :
    (operation.through (Transport.layered (levels.map Transport.Layer.logging) exchange)).outline =
      operation.outline := by
  induction operation with
  | done result => rfl
  | note event next ih => rw [through, outline, outline, ih]
  | send request next ih =>
      have exchanged : (Transport.layered (levels.map Transport.Layer.logging) exchange
          request).attempt.outline = send request fun reply => done (.ok reply) := by
        have down : ∀ event ∈ Transport.notesDown levels request, event.line? = none := by
          intro event member
          obtain ⟨_, _, rfl⟩ := List.mem_map.mp member
          exact line?_inside _ _
        have up (reply : Http.Reply) :
            ∀ event ∈ Transport.notesUp levels.length request reply, event.line? = none := by
          intro event member
          obtain ⟨_, _, rfl⟩ := List.mem_map.mp member
          exact line?_inside _ _
        rw [Transport.layered_logging, attempt_notingAll, attempt_attempt_bind, inside_exchange,
          outline_notingAll_of_wordless down]
        refine congrArg (send request) (funext fun reply => ?_)
        exact (congrArg outline (attempt_notingAll _ _)).trans
          (outline_notingAll_of_wordless (up reply) _)
      rw [through]
      refine (outline_bind _ _).trans ?_
      rw [exchanged]
      exact congrArg (send request) (funext ih)

/-! ## Operations that print nothing -/

/-- Nothing is printed, whatever is replied. -/
inductive Wordless : Operation α → Prop where
  | done (result : Except Error α) : Wordless (.done result)
  | note {event : Event} {next : Operation α} (wordless : event.line? = none)
      (later : Wordless next) : Wordless (.note event next)
  | send {request : Http.Request} {next : Http.Reply → Operation α}
      (later : ∀ reply, Wordless (next reply)) : Wordless (.send request next)

private theorem wordless_ofExcept (result : Except Error α) : (ofExcept result).Wordless :=
  .done result

private theorem wordless_pure (value : α) : (pure value : Operation α).Wordless :=
  .done (.ok value)

private theorem wordless_noting {event : Event} (wordless : event.line? = none) :
    (noting event).Wordless :=
  .note wordless (.done _)

private theorem wordless_bind {operation : Operation α} (wordless : operation.Wordless)
    {continuation : α → Operation β} (later : ∀ value, (continuation value).Wordless) :
    (operation >>= continuation).Wordless := by
  induction wordless with
  | done result =>
      cases result with
      | error error => exact .done _
      | ok value => exact later value
  | note wordless _ ih => exact .note wordless ih
  | send _ ih => exact .send ih

/-- Without lines an outline keeps no note at all. -/
theorem outline_eq_quiet {operation : Operation α} (wordless : operation.Wordless) :
    operation.outline = operation.quiet := by
  induction wordless with
  | done result => rfl
  | note wordless _ ih => exact (outline_note_of_wordless wordless _).trans ih
  | send _ ih => exact congrArg (send _) (funext ih)

end Operation

open Operation

namespace Settings

private theorem wordless_dispatch (request : Http.Request) : (dispatch request).Wordless :=
  wordless_bind (wordless_noting rfl) fun _ => .send fun reply => .done reply

private theorem wordless_exchange (settings : Settings) (method : Http.Method) (path : String)
    (body : Bytes) : (settings.exchange method path body).Wordless := by
  cases method
  all_goals
    exact wordless_bind (wordless_ofExcept _) fun _ => wordless_dispatch _

private theorem wordless_get (settings : Settings) (path : String) : (settings.get path).Wordless :=
  settings.wordless_exchange .get path []

private theorem wordless_delete (settings : Settings) (path : String) :
    (settings.delete path).Wordless :=
  settings.wordless_exchange .delete path []

end Settings

namespace Database

variable (settings : Settings) (name : String)

private theorem wordless_contains : (contains settings name).Wordless := by
  unfold contains
  refine wordless_bind (wordless_ofExcept _) fun path => ?_
  refine wordless_bind (Settings.wordless_get _ path) fun response => ?_
  split
  · exact wordless_pure _
  · exact wordless_bind (wordless_ofExcept _) fun _ => wordless_pure _

private theorem wordless_putDocument (path : String) :
    (putDocument settings name path).Wordless := by
  unfold putDocument
  refine wordless_bind (wordless_noting rfl) fun _ => ?_
  refine wordless_bind (wordless_ofExcept _) fun _ => ?_
  refine wordless_bind (wordless_ofExcept _) fun _ => ?_
  refine wordless_bind (Settings.wordless_dispatch _) fun _ => ?_
  exact wordless_bind (wordless_ofExcept _) fun _ => wordless_pure _

end Database

/-- No call prints anything. -/
theorem Call.wordless_operation {α : Type} (settings : Settings) (call : Call α) :
    (call.operation settings).Wordless := by
  cases call with
  | results state decoder =>
      unfold Call.operation Query.results
      refine wordless_bind (wordless_ofExcept _) fun _ => ?_
      refine wordless_bind (wordless_noting rfl) fun _ => ?_
      refine wordless_bind (Settings.wordless_get _ _) fun _ => ?_
      exact wordless_bind (wordless_ofExcept _) fun _ => wordless_ofExcept _
  | contains name => exact Database.wordless_contains settings name
  | create name =>
      unfold Call.operation Database.create
      refine wordless_bind (wordless_ofExcept _) fun path => ?_
      refine wordless_bind (Database.wordless_contains settings name) fun present => ?_
      cases present with
      | false => exact Database.wordless_putDocument settings name path
      | true => exact .done _
  | ensureExists name =>
      unfold Call.operation Database.ensureExists
      refine wordless_bind (wordless_ofExcept _) fun path => ?_
      refine wordless_bind (Database.wordless_contains settings name) fun present => ?_
      cases present with
      | false => exact Database.wordless_putDocument settings name path
      | true => exact wordless_noting rfl
  | drop name =>
      unfold Call.operation Database.remove
      refine wordless_bind (wordless_ofExcept _) fun path => ?_
      refine wordless_bind (Settings.wordless_delete _ path) fun _ => ?_
      exact wordless_bind (wordless_ofExcept _) fun _ => wordless_pure _
  | list =>
      unfold Call.operation Database.list
      refine wordless_bind (Settings.wordless_get _ _) fun _ => ?_
      exact wordless_bind (wordless_ofExcept _) fun _ => wordless_ofExcept _
  | get key =>
      unfold Call.operation Attachment.get
      refine wordless_bind (wordless_ofExcept _) fun path => ?_
      refine wordless_bind (Settings.wordless_get _ path) fun _ => ?_
      exact wordless_bind (wordless_ofExcept _) fun _ => wordless_pure _
  | save key upload =>
      unfold Call.operation Attachment.save
      refine wordless_bind (wordless_ofExcept _) fun _ => ?_
      refine wordless_bind (wordless_ofExcept _) fun _ => ?_
      refine wordless_bind (Settings.wordless_dispatch _) fun _ => ?_
      exact wordless_bind (wordless_ofExcept _) fun _ => wordless_pure _
  | remove key =>
      unfold Call.operation Attachment.remove
      refine wordless_bind (wordless_ofExcept _) fun path => ?_
      refine wordless_bind (Settings.wordless_delete _ path) fun _ => ?_
      exact wordless_bind (wordless_ofExcept _) fun _ => wordless_pure _
  | exchange method path body => exact settings.wordless_exchange method path body

end DocumentClient
