import DocumentClient.Operation
import DocumentClient.Settings

/-!
# Connections

The verbs on paths relative to the root of some settings. Each is one exchange, and its status is
for the caller to interpret.
-/

set_option autoImplicit false

namespace DocumentClient.Settings

def request (settings : Settings) (method : Http.Method) (path : String) :
    Except Error Http.Request :=
  (settings.urlFor path).map fun url => { method, url }

/-- Sends a request, and notes it first. -/
def dispatch (request : Http.Request) : Operation Http.Response := do
  Operation.noting (.dispatching request)
  Operation.exchange request

def get (settings : Settings) (path : String) : Operation Http.Response := do
  dispatch (← .ofExcept (settings.request .get path))

def delete (settings : Settings) (path : String) : Operation Http.Response := do
  dispatch (← .ofExcept (settings.request .delete path))

def put (settings : Settings) (path : String) (body : Bytes) : Operation Http.Response := do
  dispatch ((← .ofExcept (settings.request .put path)).withBody body)

def post (settings : Settings) (path : String) (body : Bytes) : Operation Http.Response := do
  dispatch ((← .ofExcept (settings.request .post path)).withBody body)

/-- The exchange of a verb. Only two of them send a body. -/
def exchange (settings : Settings) (method : Http.Method) (path : String) (body : Bytes) :
    Operation Http.Response :=
  match method with
  | .get => settings.get path
  | .delete => settings.delete path
  | .put => settings.put path body
  | .post => settings.post path body

end DocumentClient.Settings
