import DocumentClient.Event

/-!
# Operations

What a client does, as a tree: it ends with a result, notes an event, or sends a request and goes
on with whatever is replied. Nothing here says who replies, so that one tree can be run against
a script, a server or a network, and taken step by step beside other trees.
-/

set_option autoImplicit false

namespace DocumentClient

inductive Operation (α : Type) where
  | done (result : Except Error α)
  | note (event : Event) (next : Operation α)
  | send (request : Http.Request) (next : Http.Reply → Operation α)

namespace Operation

variable {α β : Type}

/-- Goes on with the value of an operation. A failure ends the whole. -/
def bind (operation : Operation α) (continuation : α → Operation β) : Operation β :=
  match operation with
  | .done (.ok value) => continuation value
  | .done (.error error) => .done (.error error)
  | .note event next => .note event (next.bind continuation)
  | .send request next => .send request fun reply => (next reply).bind continuation

instance : Monad Operation where
  pure value := .done (.ok value)
  bind := bind

def ofExcept (result : Except Error α) : Operation α :=
  .done result

def noting (event : Event) : Operation Unit :=
  .note event (.done (.ok ()))

/-- The same operation with its failures as values. -/
def attempt : Operation α → Operation (Except Error α)
  | .done result => .done (.ok result)
  | .note event next => .note event next.attempt
  | .send request next => .send request fun reply => (next reply).attempt

/-- The same operation while a span is open, so that whatever it notes happens within the span. -/
def within (span : Log.Span) : Operation α → Operation α
  | .done result => .done result
  | .note event next => .note (.within span event) (next.within span)
  | .send request next => .send request fun reply => (next reply).within span

/-- The same operation while some spans are open, the first of them around the others. -/
def inside (spans : List Log.Span) (operation : Operation α) : Operation α :=
  spans.foldr within operation

def exchange (request : Http.Request) : Operation Http.Response :=
  .send request .done

/-- The same operation with every exchange carried out by a service. -/
def through (service : Http.Request → Operation Http.Response) : Operation α → Operation α
  | .done result => .done result
  | .note event next => .note event (next.through service)
  | .send request next =>
    (service request).attempt.bind fun reply => (next reply).through service

/-- What a run comes to: the result, the requests and the events in their order, and the state of
whoever replied. -/
structure Run (σ α : Type) where
  result : Except Error α
  sent : List Http.Request
  events : List Event
  state : σ

/-- Runs an operation against someone who replies. -/
def run {σ : Type} (respond : σ → Http.Request → Http.Reply × σ) :
    Operation α → σ → Run σ α
  | .done result, state => ⟨result, [], [], state⟩
  | .note event next, state =>
    let rest := next.run respond state
    { rest with events := event :: rest.events }
  | .send request next, state =>
    let (reply, state) := respond state request
    let rest := (next reply).run respond state
    { rest with sent := request :: rest.sent }

/-- Replies from a script, one for each request. Behind its end there is no connection. -/
def scripted : List Http.Reply → Http.Request → Http.Reply × List Http.Reply
  | [], _ => (.error (.connection (.custom "no scripted reply")), [])
  | reply :: replies, _ => (reply, replies)

end Operation

end DocumentClient
