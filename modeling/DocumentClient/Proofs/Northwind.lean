import DocumentClient.Northwind.Offline
import DocumentClient.Proofs.Root
import DocumentClient.Proofs.Script

/-!
# The tour as a script

Where the tour leads, and what it does there. Whoever answers, it follows its script: the database
is created exactly if its document was not there, and every stage is reached exactly if all earlier
ones have passed.
-/

set_option autoImplicit false

namespace DocumentClient.Northwind

open PathSegment (written)
open Operation Script

/-! ## The script -/

structure Places where
  document : Url
  listing : Url
  employees : Url
  attachment : Url

/-- A text stands for a URL, and reading it changes nothing of it. -/
def Spells (text : String) (url : Url) : Prop :=
  Url.parse text = .ok url ∧ url.text = text

/-- The places of a database behind a root. -/
structure Places.Behind (root database : String) (places : Places) : Prop where
  document : Spells (root ++ "/docs/Raven/Databases/" ++ written database) places.document
  listing : Spells (root ++ "/databases") places.listing
  employees : Spells (root ++ "/databases/" ++ written database ++
    "/indexes/dynamic/Employees?query=Address.Country%3AUK&sort=LastName&pageSize=10")
    places.employees
  attachment : Spells (root ++ "/databases/" ++ written database ++ "/static/demo/hello.txt")
    places.attachment

/-- The database that is named, unless its name is empty. -/
def databaseOf (lookup : String → Option String) : String :=
  ((lookup Settings.databaseVariable).filter (· ≠ "")).getD defaultDatabase

variable (places : Places) (database : String)

/-- Asks for the document of the database. One that is not there is yet to be created. -/
def checking : Stage where
  request := { method := .get, url := places.document }
  judge response :=
    if response.status = 404 then .ok []
    else Call.expecting 200 "failed to check database existence" response
      (.ok ["=== Databases ==="])

def creating : Stage where
  request := Call.creation places.document database
  judge response :=
    Call.expecting 201 "failed to create database" response (.ok ["=== Databases ==="])

/-- Prints one line for each database that is listed, in their order. -/
def listing : Stage where
  request := { method := .get, url := places.listing }
  judge response :=
    (Call.expecting 200 "failed to list databases" response
      (Database.parseListing response.body)).map fun infos => infos.map databaseLine

def asking : Stage where
  request := { method := .get, url := places.employees }
  judge response :=
    (Call.expecting 200 "failed to get results" response
      (response.decode (Query.Page.record Employee.record.decoder).decoder)).map fun page =>
        s!"\n=== Employees in the UK ({page.totalResults}) ===" :: page.results.map employeeLine

def saving : Stage where
  request :=
    { method := .put
      url := places.attachment
      headers := (∅ : TextMap).insertAll upload.headers.entries
      body := some upload.content }
  judge response :=
    (Call.expecting 201 "failed to save attachment" response (.ok ())).map fun _ => []

/-- Prints the metadata as it is listed. -/
def reading (arrange : TextMap.Arrangement) : Stage where
  request := { method := .get, url := places.attachment }
  judge response :=
    (Call.expecting 200 "failed to get attachment" response
      (.ok (Attachment.ofResponse response))).map fun hello =>
        let metadata := Event.headersText (arrange.apply hello.metadata)
        [s!"\nattachment: {hello.data.length} bytes, metadata {metadata}"]

def removing : Stage where
  request := { method := .delete, url := places.attachment }
  judge response :=
    (Call.expecting 204 "failed to delete attachment" response (.ok ())).map fun _ => []

def visiting (arrange : TextMap.Arrangement) : List Stage :=
  [listing places, asking places, saving places, reading places arrange, removing places]

def absent : Http.Reply → Bool
  | .ok response => response.status == 404
  | .error _ => false

/-- All stages behind the first. The database is created if its document was not there. -/
def afterChecking (arrange : TextMap.Arrangement) (first : Http.Reply) : List Stage :=
  if absent first then creating places database :: visiting places arrange
  else visiting places arrange

/-! ## The tour plays it -/

private theorem outline_say_bind (line : String) (continuation : Unit → Operation Unit) :
    (say line >>= continuation).outline =
      notingAll ([line].map .printed) (continuation ()).outline :=
  rfl

private theorem outline_sayAll_bind {α : Type} (line : α → String) (values : List α)
    (continuation : Unit → Operation Unit) :
    (sayAll line values >>= continuation).outline =
      notingAll ((values.map line).map .printed) (continuation ()).outline := by
  induction values with
  | nil => rfl
  | cons value values ih => exact congrArg (note (.printed (line value))) ih

variable {places : Places} {database : String} {settings : Settings}
  {arrange : TextMap.Arrangement}

/-- Making sure of a database is one stage, and a second one exactly if the database is absent. -/
theorem outline_ensureExists_bind
    (found : (Call.ensureExists database).url settings = .ok places.document)
    {continuation : Unit → Operation Unit}
    (goesOn : (continuation ()).outline =
      notingAll (["=== Databases ==="].map .printed) (play (visiting places arrange))) :
    ((Call.ensureExists database).operation settings >>= continuation).outline =
      playFrom (checking places) (afterChecking places database arrange) := by
  -- The first response decides whether there is a second exchange.
  rw [outline_bind, outline_eq_quiet (Call.wordless_operation settings _),
    Call.quiet_operation found, Call.protocol, send_bind, playFrom]
  refine congrArg (send _) (funext fun reply => ?_)
  cases reply with
  | error error => rfl
  | ok response =>
      by_cases missing : response.status = 404
      · simp only [Call.reaction, Call.whether, Call.Reaction.operation, Stage.verdict, checking,
          afterChecking, absent, missing, beq_self_eq_true, if_true, send_bind]
        refine congrArg (send _) (funext fun reply => ?_)
        cases reply with
        | error error => rfl
        | ok response =>
            by_cases created : response.status = 201
            · simp [Call.expecting, Stage.verdict, creating, created, goesOn, Verdict.andThen]
            · simp [Call.expecting, Stage.verdict, creating, created, Verdict.andThen]
      · have present : absent (.ok response) = false := by simp [absent, missing]
        by_cases found : response.status = 200
        · simp [Call.reaction, Call.whether, Call.Reaction.operation, Call.expecting,
            Stage.verdict, checking, afterChecking, present, found, goesOn, Verdict.andThen]
        · simp [Call.reaction, Call.whether, Call.Reaction.operation, Call.expecting,
            Stage.verdict, checking, missing, found, Verdict.andThen]

def employeesState : Query.State :=
  { target := .dynamic (some "Employees")
    predicates := some ((∅ : TextMap).insert "Address.Country" "UK")
    sortKey := some "LastName"
    take := some 10 }

theorem employees_eq : employees = .ok employeesState :=
  rfl

/-- Where all calls of a tour go. -/
structure Found (settings : Settings) (database : String) (places : Places) : Prop where
  document : (Call.ensureExists database).url settings = .ok places.document
  listing : Call.list.url settings = .ok places.listing
  employees : (Call.results employeesState
    (Query.Page.record Employee.record.decoder).decoder).url (settings.withDatabase database) =
      .ok places.employees
  attachment : (Call.save key upload).url (settings.withDatabase database) = .ok places.attachment

private theorem outline_tour (named : settings.database.getD defaultDatabase = database)
    (found : Found settings database places) :
    (tour arrange settings).outline =
      playFrom (checking places) (afterChecking places database arrange) := by
  -- Each call is a stage, and what is printed of its value goes with it.
  unfold tour
  simp only [named, employees_eq, ofExcept_eq, done_ok_bind]
  refine outline_ensureExists_bind found.document ((outline_say_bind _ _).trans ?_)
  refine congrArg (notingAll _) ?_
  refine Call.outline_bind_of_ends found.listing (fun _ => rfl) fun infos => ?_
  refine (outline_sayAll_bind databaseLine infos _).trans (congrArg (notingAll _) ?_)
  refine Call.outline_bind_of_ends found.employees (fun _ => rfl) fun page => ?_
  refine congrArg (note _) ((outline_sayAll_bind employeeLine page.results _).trans ?_)
  refine congrArg (notingAll _) ?_
  refine Call.outline_bind_of_ends found.attachment (fun _ => rfl) fun _ => ?_
  have read : (Call.get key).url (settings.withDatabase database) = .ok places.attachment :=
    found.attachment
  refine Call.outline_bind_of_ends read (fun _ => rfl) fun hello => ?_
  refine congrArg (note _) ?_
  have removed : (Call.remove key).url (settings.withDatabase database) = .ok places.attachment :=
    found.attachment
  rw [← bind_done (Attachment.remove _ _)]
  exact Call.outline_bind_of_ends removed (fun _ => rfl) fun _ => rfl

/-! ## Where it leads -/

private theorem written_documentPath (acceptable : PathSegment.Acceptable database) :
    Database.documentPath database = .ok ("docs/Raven/Databases/" ++ written database) ∧
      Settings.Written ("docs/Raven/Databases/" ++ written database)
        (["docs", "Raven", "Databases", database].map written) none := by
  have text : Database.documentPath database =
      .ok ("docs/Raven/Databases/" ++ written database) := by
    rw [Database.documentPath, PathSegment.encode_of_acceptable acceptable]
    exact congrArg Except.ok (String.toList_inj.mp (by simp [Database.idStart, toString]))
  obtain ⟨path, found, inPlace⟩ :=
    Endpoint.path_of_named (show (Endpoint.database database).Named from acceptable)
  obtain rfl := Except.ok.inj (found.symm.trans text)
  exact ⟨text, inPlace⟩

private theorem written_listingPath : Settings.Written Database.listingPath ["databases"] none :=
  Settings.written_piecesOf_of_plain (by decide +kernel)

private theorem written_employeesPath :
    employeesState.compile.map Query.Compiled.text =
        .ok "indexes/dynamic/Employees?query=Address.Country%3AUK&sort=LastName&pageSize=10" ∧
      Settings.Written
        "indexes/dynamic/Employees?query=Address.Country%3AUK&sort=LastName&pageSize=10"
        (employeesState.names.map written) employeesState.queryString? := by
  have acceptable : employeesState.Acceptable := by decide +kernel
  have text : employeesState.compiled.text =
      "indexes/dynamic/Employees?query=Address.Country%3AUK&sort=LastName&pageSize=10" := by
    decide +kernel
  rw [Query.State.compile_of_acceptable acceptable, ← text]
  exact ⟨rfl, Query.State.written_compiled acceptable⟩

private theorem written_attachmentPath :
    Attachment.path key = .ok "static/demo/hello.txt" ∧
      Settings.Written "static/demo/hello.txt" ((Endpoint.attachment key).names.map written)
        none := by
  have named : (Endpoint.attachment key).Named := by decide +kernel
  obtain ⟨path, found, inPlace⟩ := Endpoint.path_of_named named
  have text : Attachment.path key = .ok "static/demo/hello.txt" := by decide +kernel
  obtain rfl := Except.ok.inj (found.symm.trans text)
  exact ⟨text, inPlace⟩

section Behind

variable {origin : Settings} {path : String} {more : List String} {query : Option String}

private theorem exists_spelled (accepted : origin.Accepted) (noQuery : origin.host.query = none)
    (noFragment : origin.host.fragment = none) (usable : origin.Usable)
    (inPlace : Settings.Written path more query) :
    ∃ url, origin.urlFor path = .ok url ∧ Spells (origin.root ++ origin.behindRoot path) url := by
  obtain ⟨number, authority, segments, canonical⟩ := Settings.canonical_of_accepted accepted
  obtain ⟨url, text, found, composed, parsed, kept⟩ :=
    Settings.urlFor_keeps_text canonical noQuery noFragment usable inPlace
  obtain rfl := Except.ok.inj (composed.symm.trans (Settings.compose_behindRoot usable inPlace))
  exact ⟨url, found, parsed, kept⟩

private theorem exists_places (accepted : settings.Accepted) (noQuery : settings.host.query = none)
    (noFragment : settings.host.fragment = none)
    (acceptable : PathSegment.Acceptable database) :
    ∃ places, Places.Behind settings.root database places ∧ Found settings database places := by
  have atRoot : (Database.scope settings).Usable := by
    simp [Settings.Usable, Database.scope, Settings.withoutDatabase]
  have inDatabase : (settings.withDatabase database).Usable := by
    simpa [Settings.Usable, Settings.withDatabase] using acceptable
  have rootAccepted : (Database.scope settings).Accepted :=
    Settings.accepted_of_host_eq accepted rfl
  have databaseAccepted : (settings.withDatabase database).Accepted :=
    Settings.accepted_of_host_eq accepted rfl
  obtain ⟨documentPath, documentWritten⟩ := written_documentPath acceptable
  obtain ⟨employeesPath, employeesWritten⟩ := written_employeesPath
  obtain ⟨attachmentPath, attachmentWritten⟩ := written_attachmentPath
  obtain ⟨document, documentFound, documentSpelled⟩ :=
    exists_spelled rootAccepted noQuery noFragment atRoot documentWritten
  obtain ⟨listing, listingFound, listingSpelled⟩ :=
    exists_spelled rootAccepted noQuery noFragment atRoot written_listingPath
  obtain ⟨employees, employeesFound, employeesSpelled⟩ :=
    exists_spelled databaseAccepted noQuery noFragment inDatabase employeesWritten
  obtain ⟨attachment, attachmentFound, attachmentSpelled⟩ :=
    exists_spelled databaseAccepted noQuery noFragment inDatabase attachmentWritten
  refine ⟨⟨document, listing, employees, attachment⟩, ?_, ?_⟩
  · have behindRoot {text more : String} {url : Url} (same : "/" ++ more = text)
        (spelled : Spells ((Database.scope settings).root ++
          (Database.scope settings).behindRoot more) url) :
        Spells (settings.root ++ text) url := by
      rw [← same]
      exact spelled
    have behindDatabase {text more : String} {url : Url} (same : "/" ++ more = text)
        (spelled : Spells ((settings.withDatabase database).root ++
          (settings.withDatabase database).behindRoot more) url) :
        Spells (settings.root ++ "/databases/" ++ written database ++ text) url := by
      have whole : settings.root ++ "/databases/" ++ written database ++ text =
          settings.root ++ ("/databases/" ++ written database ++ "/" ++ more) := by
        simp only [← same, String.append_assoc]
      rw [whole]
      exact spelled
    constructor
    · rw [String.append_assoc]
      refine behindRoot ?_ documentSpelled
      rw [← String.append_assoc]
      exact congrArg (· ++ written database) (by decide)
    · exact behindRoot (by decide) listingSpelled
    · exact behindDatabase (by decide) employeesSpelled
    · exact behindDatabase (by decide) attachmentSpelled
  · constructor
    · exact Call.url_of_path documentPath documentFound
    · exact Call.url_of_path rfl listingFound
    · exact Call.url_of_path employeesPath employeesFound
    · exact Call.url_of_path attachmentPath attachmentFound

end Behind

/-! ## The whole program -/

private theorem database_ofHost {text : String} {origin : Settings}
    (accepted : Settings.ofHost text = .ok origin) : origin.database = none := by
  unfold Settings.ofHost at accepted
  split at accepted
  · cases accepted
  · split at accepted
    · cases accepted
      rfl
    · cases accepted

private theorem ofLookup_of_host {lookup : String → Option String} {text : String}
    {origin : Settings} (named : lookup Settings.hostVariable = some text)
    (accepted : Settings.ofHost text = .ok origin) :
    ∃ settings, Settings.ofLookup lookup = .ok settings ∧ settings.host = origin.host ∧
      settings.database.getD defaultDatabase = databaseOf lookup := by
  unfold Settings.ofLookup databaseOf
  simp only [named, accepted]
  cases (lookup Settings.databaseVariable).filter (· ≠ "") with
  | none => exact ⟨origin, rfl, rfl, by rw [database_ofHost accepted]⟩
  | some database => exact ⟨origin.withDatabase database, rfl, rfl, rfl⟩

private theorem databaseOf_ne_empty (lookup : String → Option String) : databaseOf lookup ≠ "" := by
  unfold databaseOf
  cases filled : (lookup Settings.databaseVariable).filter (· ≠ "") with
  | none => decide
  | some database => simpa using (Option.filter_eq_some_iff.mp filled).2

private theorem outline_logged (arrange : TextMap.Arrangement) (lookup : String → Option String) :
    (logged arrange lookup).outline = (program arrange lookup).outline :=
  outline_through_logging [.info] (program arrange lookup)

/-- Without a database that can be named the tour ends before its first exchange. -/
theorem tour_of_not_acceptable (named : settings.database.getD defaultDatabase = database)
    (refused : ¬ PathSegment.Acceptable database) :
    ∃ misuse, tour arrange settings = .done (.error (.validation misuse)) := by
  obtain ⟨misuse, failed⟩ := Database.documentPath_of_not_acceptable refused
  have ended : (Call.ensureExists database).operation settings =
      .done (.error (.validation misuse)) := Call.operation_of_path_error failed
  refine ⟨misuse, ?_⟩
  unfold tour
  simp only [named]
  change ((Call.ensureExists database).operation settings >>= _) = _
  rw [ended]
  rfl

/-- Behind a plain host the program follows the script of its database, whoever answers and however
metadata is listed. It is over before the first exchange if the name of the database is a dot or
two. -/
theorem logged_follows_script (arrange : TextMap.Arrangement) {lookup : String → Option String}
    {text : String} {origin : Settings}
    (named : lookup Settings.hostVariable = some text)
    (accepted : Settings.ofHost text = .ok origin) (noQuery : origin.host.query = none)
    (noFragment : origin.host.fragment = none) :
    (databaseOf lookup = "." ∨ databaseOf lookup = ".." →
      ∀ {σ : Type} (respond : σ → Http.Request → Http.Reply × σ) (start : σ),
        let run := (logged arrange lookup).run respond start
        run.sent = [] ∧ run.lines = [] ∧ ∃ misuse, run.result = .error (.validation misuse)) ∧
    (databaseOf lookup ≠ "." → databaseOf lookup ≠ ".." →
      ∃ places, Places.Behind origin.root (databaseOf lookup) places ∧
        ∀ {σ : Type} (respond : σ → Http.Request → Http.Reply × σ) (start : σ),
          let first := (respond start (checking places).request).1
          let stages := checking places :: afterChecking places (databaseOf lookup) arrange first
          Follows stages (verdicts respond stages start)
            ((logged arrange lookup).run respond start)) := by
  obtain ⟨settings, read, host, database⟩ := ofLookup_of_host named accepted
  have whole : program arrange lookup = tour arrange settings := by
    rw [program, read]
    rfl
  constructor
  · intro dots σ respond start
    have refused : ¬ PathSegment.Acceptable (databaseOf lookup) := by
      rcases dots with same | same <;> simp [same, PathSegment.Acceptable]
    obtain ⟨misuse, ended⟩ := tour_of_not_acceptable database refused
    rw [logged, whole, ended]
    exact ⟨rfl, rfl, misuse, rfl⟩
  · intro noDot noDots
    have acceptable : PathSegment.Acceptable (databaseOf lookup) :=
      ⟨databaseOf_ne_empty lookup, noDot, noDots⟩
    have root : settings.root = origin.root := by
      rw [Settings.root, Settings.root, host]
    obtain ⟨places, behind, found⟩ := exists_places
      (Settings.accepted_of_host_eq ⟨text, origin, accepted, rfl⟩ host)
      (host.symm ▸ noQuery) (host.symm ▸ noFragment) acceptable
    refine ⟨places, root ▸ behind, fun respond start => ?_⟩
    have plays : (logged arrange lookup).outline =
        playFrom (checking places) (afterChecking places (databaseOf lookup) arrange) := by
      rw [outline_logged, whole]
      exact outline_tour database found
    exact follows_of_outline plays respond start

/-- An environment that names a host and no database. -/
def localLookup (name : String) : Option String :=
  if name = Settings.hostVariable then some "http://localhost:8080" else none

def listingBody : Bytes :=
  utf8 "[\x7b\"@metadata\":\x7b\"@id\":\"Raven/Databases/Northwind\"\x7d\x7d]"

/-- A server that makes the database, lists it, and then falls silent. -/
def repliesUntilQuery : List Http.Reply :=
  [.ok { status := 404 }, .ok { status := 201 }, .ok { status := 200, body := listingBody },
    .error .timeout]

theorem logged_until_query :
    ∃ places : Places,
      places.document.text = "http://localhost:8080/docs/Raven/Databases/Northwind" ∧
      let run := (logged .stored localLookup).run scripted repliesUntilQuery
      run.sent = [(checking places).request, (creating places "Northwind").request,
        (listing places).request, (asking places).request] ∧
      run.result = .error .timeout ∧
      run.lines = ["=== Databases ===", "Northwind (default location)"] := by
  have named : localLookup Settings.hostVariable = some "http://localhost:8080" := rfl
  have database : databaseOf localLookup = "Northwind" := by decide
  obtain ⟨places, behind, follows⟩ :=
    (logged_follows_script .stored named Settings.ofHost_localhost rfl rfl).2 (by decide)
      (by decide)
  rw [database] at follows
  refine ⟨places, behind.document.2.trans (by decide +kernel), ?_⟩
  intro run
  let stages := checking places :: creating places "Northwind" :: visiting places .stored
  have follows : Follows stages (verdicts scripted stages repliesUntilQuery) run :=
    follows scripted repliesUntilQuery
  have infos : Database.parseListing listingBody =
      .ok [⟨"Raven/Databases/Northwind", "Northwind", none, none, none⟩] := by
    decide +kernel
  have listed : (listing places).verdict (.ok { status := 200, body := listingBody }) =
      .ok ["Northwind (default location)"] := by
    simp only [Stage.verdict, listing, infos]
    rfl
  have judged : ∃ later, verdicts scripted stages repliesUntilQuery =
      [.ok [], .ok ["=== Databases ==="], .ok ["Northwind (default location)"]] ++
        .error .timeout :: later := by
    simp only [stages, verdicts, repliesUntilQuery, scripted, visiting, listed]
    exact ⟨_, rfl⟩
  obtain ⟨later, judged⟩ := judged
  rw [judged] at follows
  have failed : run.result = .error .timeout := follows.fails _ _ _ rfl (by simp)
  have beyond : ¬ 4 < run.sent.length := by
    rw [follows.reached 4 (by simp [stages, visiting])]
    simp
  have within : 3 < run.sent.length := by
    rw [follows.reached 3 (by simp [stages, visiting])]
    simp
  have sent : run.sent = (stages.map Stage.request).take 4 := by
    rw [List.prefix_iff_eq_take.mp follows.sent]
    exact congrArg (List.take · _) (by omega)
  exact ⟨sent, failed, follows.printed⟩

end DocumentClient.Northwind
