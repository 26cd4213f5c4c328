import DocumentClient.Operation

/-!
# Layers

A layer changes how requests are carried out, and leaves to the service below it what it does not
do itself. Of some layers the last one sees a request first.
-/

set_option autoImplicit false

namespace DocumentClient.Transport

abbrev Service := Http.Request → Operation Http.Response

/-- Makes a service of the one below it. -/
abbrev Layer := Service → Service

namespace Layer

/-- The span that a logging layer opens for a request. -/
def span (request : Http.Request) : Log.Span :=
  ⟨"raven_request", .info, [("method", request.method.text), ("path", request.url.pathText)]⟩

/-- Notes each request before, and its reply after the exchange. One span is opened for both: it is
entered for the first note, and again for the whole exchange and the second one. -/
def logging (level : LogLevel) : Layer := fun inner request => do
  let span := span request
  (Operation.noting (.sending level request)).within span
  Operation.within span do
    let reply ← (inner request).attempt
    Operation.noting (.settled reply)
    .ofExcept reply

/-- Changes each request, and marks its way down and up. -/
def tagging (tag : String) (change : Http.Request → Http.Request) : Layer :=
  fun inner request => do
    Operation.noting (.passedOn tag)
    let reply ← (inner (change request)).attempt
    Operation.noting (.handedBack tag reply)
    .ofExcept reply

def answering (reply : Http.Reply) : Layer := fun _ request => do
  Operation.noting (.answered request)
  .ofExcept reply

end Layer

/-- A service below some layers, the first of them the innermost. -/
def layered (layers : List Layer) (service : Service) : Service :=
  layers.foldl (fun service layer => layer service) service

end DocumentClient.Transport
