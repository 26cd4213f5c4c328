import DocumentClient.Connection

/-!
# Operations without their notes

Notes change nothing about the result of an operation, the requests that it hands over, and what is
replied to them. So an operation is compared with a protocol after its notes have been left out.
-/

set_option autoImplicit false

namespace DocumentClient

namespace Operation

variable {α β γ σ : Type}

/-! ## Going on -/

@[simp] theorem done_ok_bind (value : α) (continuation : α → Operation β) :
    done (.ok value) >>= continuation = continuation value :=
  rfl

@[simp] theorem done_error_bind (error : Error) (continuation : α → Operation β) :
    done (.error error) >>= continuation = done (.error error) :=
  rfl

@[simp] theorem note_bind (event : Event) (next : Operation α) (continuation : α → Operation β) :
    note event next >>= continuation = note event (next >>= continuation) :=
  rfl

@[simp] theorem send_bind (request : Http.Request) (next : Http.Reply → Operation α)
    (continuation : α → Operation β) :
    send request next >>= continuation = send request fun reply => next reply >>= continuation :=
  rfl

@[simp] theorem pure_eq (value : α) : (pure value : Operation α) = done (.ok value) :=
  rfl

@[simp] theorem ofExcept_eq (result : Except Error α) : ofExcept result = done result :=
  rfl

theorem bind_done (operation : Operation α) :
    (operation >>= fun value => done (.ok value)) = operation := by
  induction operation with
  | done result => cases result <;> rfl
  | note event next ih => exact congrArg (note event) ih
  | send request next ih => exact congrArg (send request) (funext ih)

theorem bind_assoc (operation : Operation α) (first : α → Operation β)
    (second : β → Operation γ) :
    operation >>= first >>= second = operation >>= fun value => first value >>= second := by
  induction operation with
  | done result => cases result <;> rfl
  | note event next ih => exact congrArg (note event) ih
  | send request next ih => exact congrArg (send request) (funext ih)

/-! ## Failures as values -/

theorem attempt_bind_done (operation : Operation α) : operation.attempt >>= done = operation := by
  induction operation with
  | done result => rfl
  | note event next ih => exact congrArg (note event) ih
  | send request next ih => exact congrArg (send request) (funext ih)

/-- An attempt does not fail, so only what follows it can. -/
theorem attempt_attempt_bind (operation : Operation α)
    (continuation : Except Error α → Operation β) :
    (operation.attempt >>= continuation).attempt =
      operation.attempt >>= fun result => (continuation result).attempt := by
  induction operation with
  | done result => rfl
  | note event next ih => exact congrArg (note event) ih
  | send request next ih => exact congrArg (send request) (funext ih)

theorem run_attempt_bind (respond : σ → Http.Request → Http.Reply × σ) (operation : Operation α)
    (continuation : Except Error α → Operation β) (state : σ) :
    (operation.attempt >>= continuation).run respond state =
      let first := operation.run respond state
      let rest := (continuation first.result).run respond first.state
      ⟨rest.result, first.sent ++ rest.sent, first.events ++ rest.events, rest.state⟩ := by
  induction operation generalizing state with
  | done result => rfl
  | note event next ih =>
      have later := ih state
      rw [attempt, note_bind, run, later]
      rfl
  | send request next ih =>
      have later := ih (respond state request).1 (respond state request).2
      rw [attempt, send_bind, run]
      simp only [later]
      rfl

/-! ## Some notes in a row -/

def notingAll (events : List Event) (next : Operation α) : Operation α :=
  events.foldr note next

theorem notingAll_append (events later : List Event) (next : Operation α) :
    notingAll (events ++ later) next = notingAll events (notingAll later next) :=
  List.foldr_append

theorem run_notingAll (respond : σ → Http.Request → Http.Reply × σ) (events : List Event)
    (next : Operation α) (state : σ) :
    (notingAll events next).run respond state =
      { next.run respond state with events := events ++ (next.run respond state).events } := by
  induction events with
  | nil => rfl
  | cons event events ih =>
      change (note event (notingAll events next)).run respond state = _
      rw [run, ih]
      rfl

theorem notingAll_bind (events : List Event) (next : Operation α)
    (continuation : α → Operation β) :
    notingAll events next >>= continuation = notingAll events (next >>= continuation) := by
  induction events with
  | nil => rfl
  | cons event events ih => exact congrArg (note event) ih

theorem attempt_notingAll (events : List Event) (next : Operation α) :
    (notingAll events next).attempt = notingAll events next.attempt := by
  induction events with
  | nil => rfl
  | cons event events ih => exact congrArg (note event) ih

theorem through_notingAll (service : Http.Request → Operation Http.Response)
    (events : List Event) (next : Operation α) :
    (notingAll events next).through service = notingAll events (next.through service) := by
  induction events with
  | nil => rfl
  | cons event events ih => exact congrArg (note event) ih

/-! ## Open spans -/

theorem within_bind (span : Log.Span) (operation : Operation α)
    (continuation : α → Operation β) :
    (operation >>= continuation).within span =
      operation.within span >>= fun value => (continuation value).within span := by
  induction operation with
  | done result => cases result <;> rfl
  | note event next ih => exact congrArg (note (.within span event)) ih
  | send request next ih => exact congrArg (send request) (funext ih)

theorem within_attempt (span : Log.Span) (operation : Operation α) :
    operation.attempt.within span = (operation.within span).attempt := by
  induction operation with
  | done result => rfl
  | note event next ih => exact congrArg (note (.within span event)) ih
  | send request next ih => exact congrArg (send request) (funext ih)

theorem within_notingAll (span : Log.Span) (events : List Event) (next : Operation α) :
    (notingAll events next).within span =
      notingAll (events.map (.within span)) (next.within span) := by
  induction events with
  | nil => rfl
  | cons event events ih => exact congrArg (note (.within span event)) ih

/-- Within a span the same is done, and whatever happens does so within the span. -/
theorem run_within (respond : σ → Http.Request → Http.Reply × σ) (span : Log.Span)
    (operation : Operation α) (state : σ) :
    (operation.within span).run respond state =
      { operation.run respond state with
        events := (operation.run respond state).events.map (.within span) } := by
  induction operation generalizing state with
  | done result => rfl
  | note event next ih =>
      rw [within, run, ih]
      rfl
  | send request next ih =>
      rw [within, run, run]
      simp only [ih]

theorem run_inside (respond : σ → Http.Request → Http.Reply × σ) (spans : List Log.Span)
    (operation : Operation α) (state : σ) :
    (operation.inside spans).run respond state =
      { operation.run respond state with
        events := (operation.run respond state).events.map (.inside spans) } := by
  induction spans with
  | nil =>
      have same : Event.inside [] = id := rfl
      rw [same, List.map_id]
      rfl
  | cons span spans ih =>
      change ((operation.inside spans).within span).run respond state = _
      rw [run_within, ih]
      simp only [List.map_map]
      rfl

@[simp] theorem inside_exchange (spans : List Log.Span) (request : Http.Request) :
    (exchange request).inside spans = exchange request := by
  induction spans with
  | nil => rfl
  | cons span spans ih => exact congrArg (within span) ih

/-! ## Leaving out the notes -/

def quiet : Operation α → Operation α
  | .done result => .done result
  | .note _ next => next.quiet
  | .send request next => .send request fun reply => (next reply).quiet

@[simp] theorem quiet_done (result : Except Error α) : (done result).quiet = done result :=
  rfl

@[simp] theorem quiet_note (event : Event) (next : Operation α) :
    (note event next).quiet = next.quiet :=
  rfl

@[simp] theorem quiet_send (request : Http.Request) (next : Http.Reply → Operation α) :
    (send request next).quiet = send request fun reply => (next reply).quiet :=
  rfl

@[simp] theorem quiet_noting (event : Event) : (noting event).quiet = done (.ok ()) :=
  rfl

@[simp] theorem quiet_exchange (request : Http.Request) :
    (exchange request).quiet = exchange request :=
  rfl

theorem quiet_bind (operation : Operation α) (continuation : α → Operation β) :
    (operation >>= continuation).quiet =
      operation.quiet >>= fun value => (continuation value).quiet := by
  induction operation with
  | done result => cases result <;> rfl
  | note event next ih => exact ih
  | send request next ih => exact congrArg (send request) (funext ih)

/-- Nothing but the events of a run is missing without the notes. -/
theorem run_quiet (respond : σ → Http.Request → Http.Reply × σ) (operation : Operation α)
    (state : σ) :
    operation.quiet.run respond state = { operation.run respond state with events := [] } := by
  induction operation generalizing state with
  | done result => rfl
  | note event next ih => exact ih state
  | send request next ih =>
      rw [quiet_send, run, run]
      simp only [ih]

theorem run_bind_pure (respond : σ → Http.Request → Http.Reply × σ) (operation : Operation α)
    (transform : α → β) (state : σ) :
    (operation >>= fun value => pure (transform value)).run respond state =
      ⟨(operation.run respond state).result.map transform, (operation.run respond state).sent,
        (operation.run respond state).events, (operation.run respond state).state⟩ := by
  induction operation generalizing state with
  | done result => cases result <;> rfl
  | note event next ih =>
      rw [note_bind, run, run, ih]
  | send request next ih =>
      rw [send_bind, run, run]
      simp only [ih]

end Operation

namespace Settings

variable {settings : Settings} {path : String}

/-- The request of a verb. Only two of them send a body. -/
def requestOf (method : Http.Method) (url : Url) (body : Bytes) : Http.Request :=
  match method with
  | .get | .delete => { method, url }
  | .put | .post => { method, url, body := some body }

theorem quiet_exchange {url : Url} (found : settings.urlFor path = .ok url)
    (method : Http.Method) (body : Bytes) :
    (settings.exchange method path body).quiet =
      Operation.exchange (requestOf method url body) := by
  cases method <;> simp [exchange, get, delete, put, post, request, found, Except.map, dispatch,
    Operation.quiet_bind, requestOf, Http.Request.withBody]

theorem exchange_of_error {error : Error} (failed : settings.urlFor path = .error error)
    (method : Http.Method) (body : Bytes) :
    settings.exchange method path body = .done (.error error) := by
  cases method <;> simp [exchange, get, delete, put, post, request, failed, Except.map]

end Settings

end DocumentClient
