import DocumentClient.Http.Request
import DocumentClient.Http.Response
import DocumentClient.Log
import DocumentClient.Query.Compiled

/-!
# Events

What happens while an operation runs, beside the exchanges themselves. Each event has an entry in
the log, or a mark in the trail of a tagging layer, or it is a line that a program writes. It may
happen within spans, which its entry tells.
-/

set_option autoImplicit false

namespace DocumentClient

/-- How much a logging layer tells about a request. -/
inductive LogLevel where
  | info
  | debug
deriving Repr, DecidableEq

inductive Event where
  /-- A connection hands a request over. -/
  | dispatching (request : Http.Request)
  | runningQuery (query : Query.Compiled)
  | creatingDatabase (name : String)
  | skippingDatabase (name : String)
  /-- A logging layer sees a request. -/
  | sending (level : LogLevel) (request : Http.Request)
  /-- A logging layer sees what became of a request. -/
  | settled (reply : Http.Reply)
  /-- A tagging layer hands a request on. -/
  | passedOn (tag : String)
  /-- A tagging layer hands a reply back. -/
  | handedBack (tag : String) (reply : Http.Reply)
  | answered (request : Http.Request)
  | printed (line : String)
  /-- Something happens while a span is open. -/
  | within (span : Log.Span) (event : Event)

namespace Event

/-- What happens while some spans are open, the first of them around the others. -/
def inside (spans : List Log.Span) (event : Event) : Event :=
  spans.foldr within event

/-- A map as it is shown, its entries as they are listed. -/
def headersText (headers : TextMap) : String :=
  "\x7b" ++ Text.join ", " (headers.entries.map fun entry =>
    Text.quoted entry.1 ++ ": " ++ Text.quoted entry.2) ++ "\x7d"

/-- What an entry tells beside its event. -/
structure Circumstances where
  /-- The time that an exchange took, in milliseconds. -/
  elapsed : Nat
  /-- How headers are listed. -/
  arrange : TextMap.Arrangement

namespace Circumstances

/-- The time is told in 64 bits, and any longer one as the longest of them. -/
def elapsedField (circumstances : Circumstances) : String × String :=
  (Log.elapsedName, toString (min circumstances.elapsed (Nat.pow 2 64 - 1)))

end Circumstances

def sendingEntry (circumstances : Circumstances) (level : LogLevel) (request : Http.Request) :
    Log.Entry :=
  let url := ("url", request.url.text)
  match level with
  | .info => { severity := .info, message := "sending request", fields := [url] }
  | .debug =>
    { severity := .debug
      message := "sending request"
      fields := [url, ("headers", headersText (circumstances.arrange.apply request.headers)),
        ("body_len", toString (request.body.getD []).length)] }

def settledEntry (circumstances : Circumstances) : Http.Reply → Log.Entry
  | .ok response =>
    let fields := [("status", toString response.status), circumstances.elapsedField]
    if response.isSuccess then { severity := .info, message := "request completed", fields }
    else { severity := .warn, message := "non-success status", fields }
  | .error error =>
    { severity := .warn
      message := "request failed"
      fields := [("error", error.message), circumstances.elapsedField] }

/-- The entry of an event, if it has one. -/
def logged? (circumstances : Circumstances) : Event → Option Log.Entry
  | .dispatching request =>
    some
      { severity := .debug
        message := "dispatching"
        fields := [("method", request.method.text), ("url", request.url.text)] }
  | .runningQuery query =>
    some { severity := .debug, message := "running query", fields := [("query", query.text)] }
  | .creatingDatabase name =>
    some { severity := .debug, message := "creating database", fields := [("database", name)] }
  | .skippingDatabase name =>
    some
      { severity := .debug
        message := "database already exists, skipping create"
        fields := [("database", name)] }
  | .sending level request => some (sendingEntry circumstances level request)
  | .settled reply => some (settledEntry circumstances reply)
  | .within span event => (event.logged? circumstances).map (·.within span)
  | .passedOn _ | .handedBack .. | .answered _ | .printed _ => none

/-- What an entry tells that does not depend on the clock. -/
def entry? (event : Event) : Option Log.Entry :=
  (event.logged? ⟨0, .stored⟩).map (·.untimed)

/-- Logs of the same events differ in nothing but the times that were taken. -/
theorem map_untimed_logged? (elapsed : Nat) (event : Event) :
    (event.logged? ⟨elapsed, .stored⟩).map (·.untimed) = event.entry? := by
  induction event with
  | settled reply =>
      have untimed : (settledEntry ⟨elapsed, .stored⟩ reply).untimed =
          (settledEntry ⟨0, .stored⟩ reply).untimed := by
        cases reply with
        | error error => rfl
        | ok response =>
            simp only [settledEntry]
            split <;> rfl
      exact congrArg some untimed
  | within span event ih =>
      have kept (entry : Option Log.Entry) :
          (entry.map (·.within span)).map (·.untimed) =
            (entry.map (·.untimed)).map (·.within span) := by
        cases entry <;> rfl
      exact (kept _).trans ((congrArg _ ih).trans (kept _).symm)
  | dispatching | runningQuery | creatingDatabase | skippingDatabase | sending | passedOn
    | handedBack | answered | printed => rfl

def line? : Event → Option String
  | .printed line => some line
  | .within _ event => event.line?
  | _ => none

def outcomeText : Http.Reply → String
  | .ok response => toString response.status
  | .error error => error.message

/-- A mark in a trail: a line, or a request that was answered. -/
inductive Mark where
  | line (text : String)
  | request (request : Http.Request)
deriving DecidableEq

def mark? : Event → Option Mark
  | .passedOn tag => some (.line (tag ++ " >"))
  | .handedBack tag reply => some (.line (tag ++ " < " ++ outcomeText reply))
  | .answered request => some (.request request)
  | .within _ event => event.mark?
  | _ => none

end Event

end DocumentClient
