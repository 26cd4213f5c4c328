/-!
# Log entries

What an event looks like in a log: how much it matters, a text, named values, and the spans that
were open around it.
-/

set_option autoImplicit false

namespace DocumentClient.Log

inductive Severity where
  | debug
  | info
  | warn
deriving Repr, DecidableEq

def Severity.text : Severity → String
  | .debug => "DEBUG"
  | .info => "INFO"
  | .warn => "WARN"

/-- A stretch of time with a name, around some entries. -/
structure Span where
  name : String
  severity : Severity
  fields : List (String × String)
deriving Repr, DecidableEq

structure Entry where
  severity : Severity
  message : String
  fields : List (String × String)
  /-- The spans that were open, the outermost first. -/
  spans : List Span := []
deriving Repr, DecidableEq

/-- The field that tells how long an exchange took, in milliseconds. -/
def elapsedName : String := "elapsed_ms"

namespace Entry

/-- The innermost of the open spans. -/
def span (entry : Entry) : Option Span :=
  entry.spans.getLast?

def within (span : Span) (entry : Entry) : Entry :=
  { entry with spans := span :: entry.spans }

/-- Without the time that was taken, which is never the same in two runs. -/
def untimed (entry : Entry) : Entry :=
  { entry with fields := entry.fields.filter (·.1 != elapsedName) }

end Entry

end DocumentClient.Log
