import DocumentClient.Proofs.Operation
import DocumentClient.Transport.Layer
import Mathlib.Data.List.Induction

/-!
# Logged exchanges

Logging layers change nothing about an exchange. On the way down each of them notes the request, on
the way up each of them notes the reply, and whatever is noted below it stands between the two and
within its span.
-/

set_option autoImplicit false

namespace DocumentClient

/-- An entry tells all the spans around its event. -/
theorem Event.logged?_inside (circumstances : Circumstances) (spans : List Log.Span)
    (event : Event) :
    (event.inside spans).logged? circumstances =
      (event.logged? circumstances).map fun entry =>
        { entry with spans := spans ++ entry.spans } := by
  induction spans with
  | nil => exact (congrFun Option.map_id _).symm
  | cons span spans ih =>
      change ((event.inside spans).logged? circumstances).map (·.within span) = _
      rw [ih, Option.map_map]
      rfl

namespace Transport

variable {σ : Type}

/-! ## Stacks of layers -/

private theorem layered_append (lower upper : List Layer) (service : Service) :
    layered (lower ++ upper) service = layered upper (layered lower service) :=
  List.foldl_append

/-- The open spans below some logging layers. They all look the same, since the request does, so a
layer is told from the others by how many are open. -/
def spans (depth : Nat) (request : Http.Request) : List Log.Span :=
  List.replicate depth (Layer.span request)

/-- The notes of a request on its way down, each within the span of its own layer and those of the
layers above it. The last layer is the first to note. -/
def notesDown (levels : List LogLevel) (request : Http.Request) : List Event :=
  levels.reverse.zipIdx.map fun (level, above) =>
    (Event.sending level request).inside (spans (above + 1) request)

/-- The notes of a reply on its way up, from within the span of the innermost layer outwards. -/
def notesUp (layers : Nat) (request : Http.Request) (reply : Http.Reply) : List Event :=
  (List.range layers).reverse.map fun above =>
    (Event.settled reply).inside (spans (above + 1) request)

variable {request : Http.Request}

private theorem notesDown_append (levels : List LogLevel) (level : LogLevel) :
    notesDown (levels ++ [level]) request =
      .within (Layer.span request) (.sending level request) ::
        (notesDown levels request).map (.within (Layer.span request)) := by
  rw [notesDown, notesDown, List.reverse_append, List.reverse_singleton, List.singleton_append,
    List.zipIdx_cons, List.zipIdx_succ, List.map_cons, List.map_map, List.map_map]
  rfl

private theorem notesUp_succ (layers : Nat) (reply : Http.Reply) :
    notesUp (layers + 1) request reply =
      (notesUp layers request reply).map (.within (Layer.span request)) ++
        [.within (Layer.span request) (.settled reply)] := by
  rw [notesUp, notesUp, List.range_succ_eq_map, List.reverse_cons, List.map_append,
    ← List.map_reverse, List.map_map, List.map_map]
  rfl

/-- What a stack of logging layers comes to: the service below is called in one place only, within
the spans of all layers, between the notes of the request and those of the reply. -/
theorem layered_logging (levels : List LogLevel) (service : Service) (request : Http.Request) :
    layered (levels.map Layer.logging) service request =
      .notingAll (notesDown levels request)
        (((service request).inside (spans levels.length request)).attempt >>= fun reply =>
          .notingAll (notesUp levels.length request reply) (.done reply)) := by
  -- The last layer is the outermost, and all that the others note happens within its span.
  induction levels using List.reverseRecOn with
  | nil => exact (Operation.attempt_bind_done (service request)).symm
  | append_singleton levels level ih =>
      let span := Layer.span request
      let below := (service request).inside (spans levels.length request)
      have outermost : layered ((levels ++ [level]).map Layer.logging) service request =
          .note (.within span (.sending level request))
            (((layered (levels.map Layer.logging) service request).attempt >>= fun reply =>
              .note (.settled reply) (.done reply)).within span) := by
        rw [List.map_append, layered_append]
        rfl
      have others : (layered (levels.map Layer.logging) service request).attempt.within span =
          .notingAll ((notesDown levels request).map (.within span))
            ((below.within span).attempt >>= fun reply =>
              .notingAll ((notesUp levels.length request reply).map (.within span))
                (.done (.ok reply))) := by
        rw [ih, Operation.within_attempt, Operation.within_notingAll, Operation.within_bind,
          Operation.within_attempt, Operation.attempt_notingAll, Operation.attempt_attempt_bind]
        simp only [Operation.within_notingAll, Operation.attempt_notingAll]
        rfl
      rw [outermost, Operation.within_bind, others, Operation.notingAll_bind, Operation.bind_assoc,
        notesDown_append, List.length_append, List.length_singleton]
      simp only [Operation.notingAll_bind, notesUp_succ, Operation.notingAll_append]
      rfl

/-- A run seen through some layers. -/
structure Wrapped (levels : List LogLevel) (request : Http.Request)
    (below whole : Operation.Run σ Http.Response) : Prop where
  result : whole.result = below.result
  sent : whole.sent = below.sent
  state : whole.state = below.state
  events : whole.events = notesDown levels request ++
    below.events.map (.inside (spans levels.length request)) ++
      notesUp levels.length request below.result
  /-- Each layer notes something twice. -/
  count : whole.events.length = 2 * levels.length + below.events.length

private theorem wrapped_logging (levels : List LogLevel) (service : Service)
    (request : Http.Request) (respond : σ → Http.Request → Http.Reply × σ) (start : σ) :
    Wrapped levels request ((service request).run respond start)
      ((layered (levels.map Layer.logging) service request).run respond start) := by
  have whole : (layered (levels.map Layer.logging) service request).run respond start =
      let below := (service request).run respond start
      { below with
        events := notesDown levels request ++
          below.events.map (.inside (spans levels.length request)) ++
            notesUp levels.length request below.result } := by
    rw [layered_logging, Operation.run_notingAll, Operation.run_attempt_bind]
    simp [Operation.run_notingAll, Operation.run_inside, Operation.run]
  rw [whole]
  refine ⟨rfl, rfl, rfl, rfl, ?_⟩
  simp only [List.length_append, List.length_map, List.length_reverse, List.length_range,
    List.length_zipIdx, notesDown, notesUp]
  omega

/-- The exchange at the bottom of a stack may be carried out by any service, within the spans of all
layers. -/
theorem layered_logging_through (levels : List LogLevel) (service : Service)
    (request : Http.Request) :
    layered (levels.map Layer.logging) service request =
      (layered (levels.map Layer.logging) Operation.exchange request).through fun request =>
        (service request).inside (spans levels.length request) := by
  rw [layered_logging, layered_logging, Operation.through_notingAll, Operation.inside_exchange]
  refine congrArg (Operation.notingAll _)
    (congrArg (((service request).inside _).attempt >>= ·) ?_)
  funext reply
  exact (Operation.through_notingAll _ _ (.done reply)).symm

/-! ## What is noted -/

/-- Within the span of the own layer, which is open within those of the layers above. -/
def InOwnSpan (above : Nat) (request : Http.Request) (entry : Log.Entry) : Prop :=
  let span : Log.Span :=
    ⟨"raven_request", .info, [("method", request.method.text), ("path", request.url.pathText)]⟩
  entry.spans = List.replicate above span ++ [span]

structure TellsRequest (level : LogLevel) (above : Nat) (request : Http.Request)
    (entry : Log.Entry) : Prop where
  spans : InOwnSpan above request entry
  message : entry.message = "sending request"
  severity : entry.severity = match level with
    | .info => .info
    | .debug => .debug
  url : ("url", request.url.text) ∈ entry.fields

structure TellsReply (above : Nat) (request : Http.Request) (reply : Http.Reply)
    (entry : Log.Entry) : Prop where
  spans : InOwnSpan above request entry
  completed : entry.message = "request completed" ↔
    ∃ response, reply = .ok response ∧ 200 ≤ response.status ∧ response.status ≤ 299
  unsuccessful : entry.message = "non-success status" ↔
    ∃ response, reply = .ok response ∧ ¬ (200 ≤ response.status ∧ response.status ≤ 299)
  failed : entry.message = "request failed" ↔ ∃ error, reply = .error error
  severity : entry.severity = if entry.message = "request completed" then .info else .warn
  status : ∀ response, reply = .ok response →
    ("status", toString response.status) ∈ entry.fields
  error : ∀ error, reply = .error error → ("error", error.message) ∈ entry.fields
  elapsed : ∃ milliseconds < Nat.pow 2 64, ("elapsed_ms", toString milliseconds) ∈ entry.fields

private theorem exists_tellsRequest (circumstances : Event.Circumstances) (level : LogLevel)
    (above : Nat) (request : Http.Request) :
    ∃ entry,
      ((Event.sending level request).inside (spans (above + 1) request)).logged? circumstances =
        some entry ∧ TellsRequest level above request entry := by
  have own : spans (above + 1) request ++ [] = spans above request ++ [Layer.span request] :=
    (List.append_nil _).trans List.replicate_succ'
  rw [Event.logged?_inside]
  refine ⟨_, rfl, ?_⟩
  cases level with
  | info | debug => exact ⟨own, rfl, rfl, List.mem_cons_self⟩

private theorem tellsReply_of_settledEntry (circumstances : Event.Circumstances) (above : Nat)
    (request : Http.Request) (reply : Http.Reply) :
    TellsReply above request reply
      { Event.settledEntry circumstances reply with spans := spans (above + 1) request } := by
  have elapsed : ∃ milliseconds < Nat.pow 2 64,
      circumstances.elapsedField = ("elapsed_ms", toString milliseconds) :=
    ⟨_, Nat.lt_of_le_of_lt (Nat.min_le_right _ _) (by decide), rfl⟩
  obtain ⟨milliseconds, short, elapsed⟩ := elapsed
  have own : spans (above + 1) request = spans above request ++ [Layer.span request] :=
    List.replicate_succ'
  cases reply with
  | error error =>
      refine ⟨own, ?_, ?_, ?_, rfl, ?_, ?_, milliseconds, short, ?_⟩ <;>
        simp [Event.settledEntry, elapsed]
  | ok response =>
      have success : response.isSuccess = true ↔ 200 ≤ response.status ∧ response.status ≤ 299 := by
        simp [Http.Response.isSuccess, Nat.lt_succ_iff]
      by_cases completed : 200 ≤ response.status ∧ response.status ≤ 299
      · rw [Event.settledEntry, if_pos (success.mpr completed), elapsed]
        refine ⟨own, ?_, ?_, ?_, rfl, ?_, ?_, milliseconds, short, ?_⟩ <;> simp [completed]
      · rw [Event.settledEntry, if_neg (mt success.mp completed), elapsed]
        refine ⟨own, ?_, ?_, ?_, rfl, ?_, ?_, milliseconds, short, ?_⟩ <;>
          simp [-not_and, completed]

private theorem exists_tellsReply (circumstances : Event.Circumstances) (above : Nat)
    (request : Http.Request) (reply : Http.Reply) :
    ∃ entry,
      ((Event.settled reply).inside (spans (above + 1) request)).logged? circumstances =
        some entry ∧ TellsReply above request reply entry := by
  have bare : (Event.settledEntry circumstances reply).spans = [] := by
    cases reply with
    | error error => rfl
    | ok response =>
        simp only [Event.settledEntry]
        split <;> rfl
  rw [Event.logged?_inside]
  refine ⟨_, rfl, ?_⟩
  simp only [bare, List.append_nil]
  exact tellsReply_of_settledEntry circumstances above request reply

/-- Behind any stack of logging layers the exchange at its bottom is carried out once, with the same
request, and its reply comes back unchanged. The notes are those of the layers above any place in
the stack around those of what is below it. Each is told within the span of its own layer. -/
theorem logging_is_transparent (levels : List LogLevel) (service : Service)
    (request : Http.Request) (respond : σ → Http.Request → Http.Reply × σ) (start : σ) :
    let stack := layered (levels.map Layer.logging)
    let whole := (stack service request).run respond start
    let below := (service request).run respond start
    ((stack Operation.exchange request).run respond start).sent = [request] ∧
      ((stack Operation.exchange request).run respond start).result = (respond start request).1 ∧
      stack service request = (stack Operation.exchange request).through
        (fun request => (service request).inside (spans levels.length request)) ∧
      Wrapped levels request below whole ∧
      (∀ lower upper : List LogLevel, levels = lower ++ upper →
        Wrapped upper request
          ((layered (lower.map Layer.logging) service request).run respond start) whole) ∧
      ∀ circumstances above,
        (∀ level, ∃ entry,
          ((Event.sending level request).inside (spans (above + 1) request)).logged? circumstances =
            some entry ∧ TellsRequest level above request entry) ∧
        ∃ entry,
          ((Event.settled below.result).inside (spans (above + 1) request)).logged? circumstances =
            some entry ∧ TellsReply above request below.result entry := by
  intro stack whole below
  have bottom := wrapped_logging levels Operation.exchange request respond start
  refine ⟨bottom.sent, bottom.result, layered_logging_through levels service request,
    wrapped_logging levels service request respond start, ?_, fun circumstances above => ⟨?_, ?_⟩⟩
  · rintro lower upper rfl
    have wrapped := wrapped_logging upper (layered (lower.map Layer.logging) service) request
      respond start
    rwa [← layered_append, ← List.map_append] at wrapped
  · exact fun level => exists_tellsRequest circumstances level above request
  · exact exists_tellsReply circumstances above request below.result

example (request : Http.Request) (reply : Http.Reply) :
    let span := Layer.span request
    ((layered ([.info, .debug].map Layer.logging) Operation.exchange request).run
      (fun _ _ => (reply, ())) ()).events =
      [.within span (.sending .debug request), .within span (.within span (.sending .info request)),
        .within span (.within span (.settled reply)), .within span (.settled reply)] :=
  rfl

end Transport

end DocumentClient
