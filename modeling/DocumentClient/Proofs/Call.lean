import DocumentClient.Proofs.Endpoint
import DocumentClient.Proofs.Operation
import DocumentClient.Query.Results

/-!
# Calls and their protocols

Everything that a caller can ask a client to do. A call whose URL cannot be made is refused at once.
Every other call keeps to a protocol: one request, and for the creation of a database perhaps a
second one to the same URL.
-/

set_option autoImplicit false

namespace DocumentClient

/-- What a caller can ask for, by the type of what is handed back. -/
inductive Call : Type → Type 1 where
  | results {α : Type} (state : Query.State) (decoder : Json.Decoder α) : Call α
  | contains (name : String) : Call Bool
  | create (name : String) : Call Unit
  | ensureExists (name : String) : Call Unit
  | drop (name : String) : Call Unit
  | list : Call (List Database.Info)
  | get (key : String) : Call Attachment
  | save (key : String) (upload : Attachment.Upload) : Call Unit
  | remove (key : String) : Call Unit
  | exchange (method : Http.Method) (path : String) (body : Bytes) : Call Http.Response

namespace Call

variable {α : Type} {settings : Settings}

def operation (settings : Settings) : {α : Type} → Call α → Operation α
  | _, .results state decoder => Query.results settings state decoder
  | _, .contains name => Database.contains settings name
  | _, .create name => Database.create settings name
  | _, .ensureExists name => Database.ensureExists settings name
  | _, .drop name => Database.remove settings name
  | _, .list => Database.list settings
  | _, .get key => Attachment.get settings key
  | _, .save key upload => Attachment.save settings key upload
  | _, .remove key => Attachment.remove settings key
  | _, .exchange method path body => settings.exchange method path body

def path : {α : Type} → Call α → Except Error String
  | _, .results state _ => state.compile.map Query.Compiled.text
  | _, .contains name | _, .create name | _, .ensureExists name | _, .drop name =>
    Database.documentPath name
  | _, .list => .ok Database.listingPath
  | _, .get key | _, .save key _ | _, .remove key => Attachment.path key
  | _, .exchange _ path _ => .ok path

def scope (settings : Settings) : {α : Type} → Call α → Settings
  | _, .contains _ | _, .create _ | _, .ensureExists _ | _, .drop _ | _, .list =>
    Database.scope settings
  | _, .results .. | _, .get _ | _, .save .. | _, .remove _ | _, .exchange .. => settings

def url (settings : Settings) (call : Call α) : Except Error Url := do
  (call.scope settings).urlFor (← call.path)

def Named : {α : Type} → Call α → Prop
  | _, .results state _ => state.Acceptable
  | _, .contains name | _, .create name | _, .ensureExists name | _, .drop name =>
    PathSegment.Acceptable name
  | _, .get key | _, .save key _ | _, .remove key => PathSegment.AcceptablePath key
  | _, .list | _, .exchange .. => True

/-- What a caller may ask for. The administration of databases does not use the selected one. -/
def Acceptable (settings : Settings) (call : Call α) : Prop :=
  (call.scope settings).Usable ∧ call.Named

/-! ## Protocols -/

def documentText (name : String) : String :=
  let settings := "\x7b" ++ (Json.writeText Database.directorySetting ++ ":" ++
    Json.writeText (Database.dataDirectory name)) ++ "\x7d"
  "\x7b" ++ (Json.writeText "Settings" ++ ":" ++ settings) ++ "\x7d"

def creation (url : Url) (name : String) : Http.Request where
  method := .put
  url
  headers := (∅ : TextMap).insert "Content-Type" "application/json"
  body := some (utf8 (documentText name))

def request (url : Url) : {α : Type} → Call α → Http.Request
  | _, .results .. | _, .contains _ | _, .create _ | _, .ensureExists _ | _, .list | _, .get _ =>
    { method := .get, url }
  | _, .drop _ | _, .remove _ => { method := .delete, url }
  | _, .save _ upload =>
    { method := .put
      url
      headers := (∅ : TextMap).insertAll upload.headers.entries
      body := some upload.content }
  | _, .exchange method _ body => Settings.requestOf method url body

/-- A result that needs a status. Without it the error has the status and the body as they are. -/
def expecting (status : Nat) (action : String) (response : Http.Response)
    (result : Except Error α) : Except Error α :=
  if response.status = status then result
  else .error (.http response.status (.unexpected action) (some response.body))

/-- How a call goes on behind its first response. -/
inductive Reaction (α : Type) where
  | ends (result : Except Error α)
  | creates (name : String) (value : α)

/-- Whether there is a database: one status says so, one denies it, and any other says neither. -/
def whether (response : Http.Response) (absent : Reaction α) (present : Except Error α) :
    Reaction α :=
  if response.status = 404 then absent
  else .ends (expecting 200 "failed to check database existence" response present)

def reaction (response : Http.Response) : {α : Type} → Call α → Reaction α
  | _, .results _ decoder =>
    .ends (expecting 200 "failed to get results" response (response.decode decoder))
  | _, .contains _ => whether response (.ends (.ok false)) (.ok true)
  | _, .create name => whether response (.creates name ()) (.error (.alreadyExists name))
  | _, .ensureExists name => whether response (.creates name ()) (.ok ())
  | _, .drop _ => .ends (expecting 204 "failed to delete database" response (.ok ()))
  | _, .list =>
    .ends (expecting 200 "failed to list databases" response (Database.parseListing response.body))
  | _, .get _ =>
    .ends (expecting 200 "failed to get attachment" response (.ok (.ofResponse response)))
  | _, .save .. => .ends (expecting 201 "failed to save attachment" response (.ok ()))
  | _, .remove _ => .ends (expecting 204 "failed to delete attachment" response (.ok ()))
  | _, .exchange .. => .ends (.ok response)

/-- What is left to do. A request that gets no response ends the call. -/
def Reaction.operation (url : Url) : Reaction α → Operation α
  | .ends result => .done result
  | .creates name value =>
    .send (creation url name) fun
      | .error error => .done (.error error)
      | .ok response => .done (expecting 201 "failed to create database" response (.ok value))

def protocol (url : Url) (call : Call α) : Operation α :=
  .send (call.request url) fun
    | .error error => .done (.error error)
    | .ok response => (call.reaction response).operation url

/-! ## Every operation keeps to its protocol -/

theorem url_request (url : Url) (call : Call α) : (call.request url).url = url := by
  cases call with
  | exchange method path body => cases method <;> rfl
  | _ => rfl

theorem url_of_path {call : Call α} {path : String} {url : Url} (named : call.path = .ok path)
    (found : (call.scope settings).urlFor path = .ok url) : call.url settings = .ok url := by
  rw [Call.url, named]
  exact found

theorem expecting_of_status {response : Http.Response} {status : Nat}
    (answered : response.status = status) (action : String) (result : Except Error α) :
    expecting status action response result = result :=
  if_pos answered

theorem expecting_of_other_status {response : Http.Response} {status other : Nat}
    (answered : response.status = other) (different : other ≠ status) (action : String)
    (result : Except Error α) :
    expecting status action response result =
      .error (.http other (.unexpected action) (some response.body)) := by
  subst answered
  exact if_neg different

private theorem exchange_expecting (request : Http.Request) (status : Nat) (action : String)
    (finish : Http.Response → Except Error α) :
    (do
      let response ← Operation.exchange request
      let response ← Operation.done (response.expectStatus status action)
      Operation.done (finish response)) =
      .send request fun
        | .error error => .done (.error error)
        | .ok response => .done (expecting status action response (finish response)) := by
  rw [Operation.exchange, Operation.send_bind]
  refine congrArg (Operation.send _) (funext fun reply => ?_)
  cases reply with
  | error error => rfl
  | ok response =>
      by_cases expected : response.status = status
      · simp [expecting, Http.Response.expectStatus, expected]
      · simp [expecting, Http.Response.expectStatus, expected]

theorem encodeBody_document (name : String) :
    encodeBody (Database.document name) = .ok (utf8 (documentText name)) := by
  have written : Json.write (Database.document name) = .ok (documentText name) := by
    simp only [Database.document, Json.write, Json.writeEntries, Json.writeName]
    rfl
  rw [encodeBody, written]
  rfl

private theorem json_document (url : Url) (name : String) :
    ({ method := .put, url : Http.Request }).json (Database.document name) =
      .ok (creation url name) := by
  rw [Http.Request.json, encodeBody_document]
  rfl

private theorem quiet_get {path : String} {url : Url} (found : settings.urlFor path = .ok url) :
    (settings.get path).quiet = Operation.exchange { method := .get, url } :=
  Settings.quiet_exchange found .get []

private theorem quiet_delete {path : String} {url : Url} (found : settings.urlFor path = .ok url) :
    (settings.delete path).quiet = Operation.exchange { method := .delete, url } :=
  Settings.quiet_exchange found .delete []

private theorem quiet_contains_bind {path : String} {url : Url} {name : String}
    (named : Database.documentPath name = .ok path)
    (found : (Database.scope settings).urlFor path = .ok url) {continuation : Bool → Operation α}
    {absent : Reaction α} {present : Except Error α}
    (ifAbsent : (continuation false).quiet = absent.operation url)
    (ifPresent : (continuation true).quiet = .done present) :
    (Database.contains settings name >>= continuation).quiet =
      .send { method := .get, url } fun
        | .error error => .done (.error error)
        | .ok response => (whether response absent present).operation url := by
  -- One response decides between the two continuations, or ends the call.
  rw [Operation.quiet_bind, Database.contains, named]
  simp only [Operation.ofExcept_eq, Operation.done_ok_bind, Operation.quiet_bind, quiet_get found,
    Operation.exchange, Operation.send_bind]
  refine congrArg (Operation.send _) (funext fun reply => ?_)
  cases reply with
  | error error => rfl
  | ok response =>
      by_cases missing : response.status = 404
      · simp [whether, missing, ifAbsent]
      · by_cases existing : response.status = 200
        · simp [whether, expecting, Http.Response.expectStatus, Reaction.operation, existing,
            ifPresent]
        · simp [whether, expecting, Http.Response.expectStatus, Reaction.operation, missing,
            existing]

private theorem quiet_putDocument {path : String} {url : Url}
    (found : (Database.scope settings).urlFor path = .ok url) (name : String) :
    (Database.putDocument settings name path).quiet =
      .send (creation url name) fun
        | .error error => .done (.error error)
        | .ok response =>
          .done (expecting 201 "failed to create database" response (.ok ())) := by
  have request : (Database.scope settings).request .put path = .ok { method := .put, url } := by
    rw [Settings.request, found]
    rfl
  have dispatch : (Settings.dispatch (creation url name)).quiet =
      Operation.exchange (creation url name) := rfl
  simp only [Database.putDocument, request, json_document, Operation.ofExcept_eq,
    Operation.done_ok_bind, Operation.quiet_bind, Operation.quiet_noting, dispatch]
  exact exchange_expecting _ 201 "failed to create database" fun _ => .ok ()

theorem quiet_operation {url : Url} {call : Call α} (found : call.url settings = .ok url) :
    (call.operation settings).quiet = call.protocol url := by
  obtain ⟨path, named, found⟩ := ok_of_bind found
  cases call with
  | results state decoder =>
      simp only [Call.path, scope] at named found
      obtain ⟨compiled, compiles, rfl⟩ := ok_of_map named
      simp only [operation, Query.results, compiles, Operation.ofExcept_eq, Operation.done_ok_bind,
        Operation.quiet_bind, Operation.quiet_noting, Operation.quiet_done, quiet_get found]
      exact exchange_expecting _ 200 "failed to get results" (·.decode decoder)
  | contains name =>
      simp only [Call.path, scope] at named found
      rw [operation, ← Operation.bind_done (Database.contains settings name)]
      exact quiet_contains_bind named found rfl rfl
  | create name =>
      simp only [Call.path, scope] at named found
      simp only [operation, Database.create, named, Operation.ofExcept_eq, Operation.done_ok_bind]
      exact quiet_contains_bind named found (quiet_putDocument found name) rfl
  | ensureExists name =>
      simp only [Call.path, scope] at named found
      simp only [operation, Database.ensureExists, named, Operation.ofExcept_eq,
        Operation.done_ok_bind]
      exact quiet_contains_bind named found (quiet_putDocument found name) rfl
  | drop name =>
      simp only [Call.path, scope] at named found
      simp only [operation, Database.remove, named, Operation.ofExcept_eq, Operation.done_ok_bind,
        Operation.quiet_bind, quiet_delete found]
      exact exchange_expecting _ 204 "failed to delete database" fun _ => .ok ()
  | list =>
      cases named
      simp only [scope] at found
      simp only [operation, Database.list, Operation.ofExcept_eq, Operation.quiet_bind,
        quiet_get found]
      exact exchange_expecting _ 200 "failed to list databases" (Database.parseListing ·.body)
  | get key =>
      simp only [Call.path, scope] at named found
      simp only [operation, Attachment.get, named, Operation.ofExcept_eq, Operation.done_ok_bind,
        Operation.quiet_bind, quiet_get found]
      exact exchange_expecting _ 200 "failed to get attachment" (.ok <| Attachment.ofResponse ·)
  | save key upload =>
      simp only [Call.path, scope] at named found
      have bare : settings.request .put path = .ok { method := .put, url } := by
        rw [Settings.request, found]
        rfl
      have dispatch (request : Http.Request) :
          (Settings.dispatch request).quiet = Operation.exchange request := rfl
      simp only [operation, Attachment.save, named, bare, Operation.ofExcept_eq,
        Operation.done_ok_bind, Operation.quiet_bind, dispatch]
      exact exchange_expecting _ 201 "failed to save attachment" fun _ => .ok ()
  | remove key =>
      simp only [Call.path, scope] at named found
      simp only [operation, Attachment.remove, named, Operation.ofExcept_eq, Operation.done_ok_bind,
        Operation.quiet_bind, quiet_delete found]
      exact exchange_expecting _ 204 "failed to delete attachment" fun _ => .ok ()
  | exchange method path body =>
      cases named
      simp only [scope] at found
      refine (Settings.quiet_exchange found method body).trans
        (congrArg (Operation.send _) (funext fun reply => ?_))
      cases reply <;> rfl

/-! ## Refusal -/

private theorem get_of_error {path : String} {error : Error}
    (failed : settings.urlFor path = .error error) :
    settings.get path = .done (.error error) :=
  Settings.exchange_of_error failed .get []

private theorem delete_of_error {path : String} {error : Error}
    (failed : settings.urlFor path = .error error) :
    settings.delete path = .done (.error error) :=
  Settings.exchange_of_error failed .delete []

/-- A call without a path fails for the same reason, and before anything else. -/
theorem operation_of_path_error {call : Call α} {error : Error}
    (failed : call.path = .error error) :
    call.operation settings = .done (.error error) := by
  cases call with
  | results state decoder =>
      have failed : state.compile = .error error := error_of_map failed
      simp [operation, Query.results, failed]
  | contains name =>
      simp only [path] at failed
      simp [operation, Database.contains, failed]
  | create name =>
      simp only [path] at failed
      simp [operation, Database.create, failed]
  | ensureExists name =>
      simp only [path] at failed
      simp [operation, Database.ensureExists, failed]
  | drop name =>
      simp only [path] at failed
      simp [operation, Database.remove, failed]
  | get key =>
      simp only [path] at failed
      simp [operation, Attachment.get, failed]
  | save key upload =>
      simp only [path] at failed
      simp [operation, Attachment.save, failed]
  | remove key =>
      simp only [path] at failed
      simp [operation, Attachment.remove, failed]
  | list | exchange => cases failed

theorem quiet_operation_of_url_error {call : Call α} {text : String} {error : Error}
    (named : call.path = .ok text) (failed : (call.scope settings).urlFor text = .error error) :
    (call.operation settings).quiet = .done (.error error) := by
  have getFailed := get_of_error failed
  have deleteFailed := delete_of_error failed
  cases call with
  | results state decoder =>
      obtain ⟨compiled, compiles, rfl⟩ := ok_of_map named
      simp only [scope] at getFailed
      simp [operation, Query.results, compiles, getFailed, Operation.quiet_bind]
  | contains name =>
      simp only [path, scope] at named getFailed
      simp [operation, Database.contains, named, getFailed]
  | create name =>
      simp only [path, scope] at named getFailed
      simp [operation, Database.create, Database.contains, named, getFailed]
  | ensureExists name =>
      simp only [path, scope] at named getFailed
      simp [operation, Database.ensureExists, Database.contains, named, getFailed]
  | drop name =>
      simp only [path, scope] at named deleteFailed
      simp [operation, Database.remove, named, deleteFailed]
  | list =>
      cases named
      simp only [scope] at getFailed
      simp [operation, Database.list, getFailed]
  | get key =>
      simp only [path, scope] at named getFailed
      simp [operation, Attachment.get, named, getFailed]
  | save key upload =>
      simp only [path, scope] at named failed
      simp [operation, Attachment.save, named, Settings.request, failed, Except.map]
  | remove key =>
      simp only [path, scope] at named deleteFailed
      simp [operation, Attachment.remove, named, deleteFailed]
  | exchange method path body =>
      cases named
      rw [operation]
      exact congrArg Operation.quiet (Settings.exchange_of_error failed method body)

/-! ## Which calls are refused -/

theorem path_of_named {call : Call α} (named : call.Named) : ∃ text, call.path = .ok text := by
  cases call with
  | results state decoder =>
      rw [path, Query.State.compile_of_acceptable named]
      exact ⟨_, rfl⟩
  | contains name | create name | ensureExists name | drop name =>
      exact ⟨_, Database.documentPath_of_acceptable named⟩
  | get key | save key upload | remove key => exact ⟨_, Attachment.path_of_acceptable named⟩
  | list | exchange => exact ⟨_, rfl⟩

private theorem path_of_not_named {call : Call α} (refused : ¬ call.Named) :
    ∃ misuse, call.path = .error (.validation misuse) := by
  cases call with
  | results state decoder =>
      obtain ⟨misuse, failed⟩ := Query.State.compile_of_not_acceptable refused
      rw [path, failed]
      exact ⟨misuse, rfl⟩
  | contains name | create name | ensureExists name | drop name =>
      exact Database.documentPath_of_not_acceptable refused
  | get key | save key upload | remove key => exact Attachment.path_of_not_acceptable refused
  | list | exchange => exact absurd trivial refused

theorem host_scope (settings : Settings) (call : Call α) :
    (call.scope settings).host = settings.host := by
  cases call <;> rfl

theorem url_of_acceptable (accepted : settings.Accepted) {call : Call α}
    (acceptable : call.Acceptable settings) : ∃ url, call.url settings = .ok url := by
  obtain ⟨number, authority, segments, canonical⟩ := Settings.canonical_of_accepted accepted
  obtain ⟨text, named⟩ := path_of_named acceptable.2
  obtain ⟨rest, found⟩ := Settings.urlFor_of_usable ((host_scope settings call).symm ▸ canonical)
    acceptable.1 text
  exact ⟨_, url_of_path named found⟩

/-- A call that is not acceptable comes to a usage error at once. -/
theorem quiet_operation_of_not_acceptable {call : Call α} (refused : ¬ call.Acceptable settings) :
    ∃ misuse, (call.operation settings).quiet = .done (.error (.validation misuse)) := by
  by_cases named : call.Named
  · obtain ⟨text, written⟩ := path_of_named named
    have unusable : ¬ (call.scope settings).Usable := fun usable => refused ⟨usable, named⟩
    obtain ⟨misuse, failed⟩ := Settings.urlFor_of_not_usable unusable text
    exact ⟨misuse, quiet_operation_of_url_error written failed⟩
  · obtain ⟨misuse, failed⟩ := path_of_not_named named
    rw [operation_of_path_error failed]
    exact ⟨misuse, rfl⟩

end Call

/-- The document of a database has a URL, whatever database is selected. -/
theorem Database.exists_documentUrl {settings : Settings} {name : String}
    (accepted : settings.Accepted) (acceptable : PathSegment.Acceptable name) :
    ∃ url, (Endpoint.database name).urlFor settings = .ok url := by
  have usable : ((Call.create name).scope settings).Usable := by
    simp [Settings.Usable, Call.scope, Database.scope, Settings.withoutDatabase]
  have asked : (Call.create name).Acceptable settings := ⟨usable, acceptable⟩
  exact Call.url_of_acceptable accepted asked

end DocumentClient
