import DocumentClient.Attachment
import DocumentClient.Database.Requests
import DocumentClient.Query.Page
import DocumentClient.Query.Results
import DocumentClient.Transport.Config

/-!
# A tour of a server

A program that makes sure of a database, lists all of them, asks for some employees, and stores,
reads and removes an attachment. It stops at the first failure.
-/

set_option autoImplicit false

namespace DocumentClient.Northwind

structure Employee where
  firstName : String := ""
  lastName : String := ""
  title : Option String := none
deriving Repr, DecidableEq

def Employee.record : Json.Record Employee :=
  ⟨"Employee", {},
    [.needed "FirstName" Json.text fun firstName employee => { employee with firstName },
     .needed "LastName" Json.text fun lastName employee => { employee with lastName },
     .defaulted "Title" (Json.optional Json.text) fun title employee => { employee with title }]⟩

/-- The database of the tour, unless the settings name another. -/
def defaultDatabase : String := "Northwind"

/-- The tour does not wait as long as others do. -/
def config : Transport.Config := { timeout := 10000 }

def say (line : String) : Operation Unit :=
  Operation.noting (.printed line)

def sayAll {α : Type} (line : α → String) : List α → Operation Unit
  | [] => pure ()
  | value :: values => do
    say (line value)
    sayAll line values

def databaseLine (info : Database.Info) : String :=
  info.name ++ " (" ++ info.dataDirectory.getD "default location" ++ ")"

def employeeLine (employee : Employee) : String :=
  employee.firstName ++ " " ++ employee.lastName ++ ": " ++ employee.title.getD "-"

/-- The ten first employees in the United Kingdom, by last name. -/
def employees : Except Error Query.State := do
  let state ← Query.State.dynamic.setCollection "Employees"
  .ok (((state.filter "Address.Country" "UK").orderBy "LastName").setTake 10)

def key : String := "demo/hello.txt"

def upload : Attachment.Upload :=
  Attachment.Upload.withMetadata { content := utf8 "hello from the demo" } "Owner" "demo"

/-- The whole tour. Metadata is printed in some order, of which nothing is known. -/
def tour (arrange : TextMap.Arrangement) (settings : Settings) : Operation Unit := do
  let database := settings.database.getD defaultDatabase
  Database.ensureExists settings database
  say "=== Databases ==="
  sayAll databaseLine (← Database.list settings)
  let northwind := settings.withDatabase database
  let query ← .ofExcept employees
  let page ← Query.results northwind query (Query.Page.record Employee.record.decoder).decoder
  say s!"\n=== Employees in the UK ({page.totalResults}) ==="
  sayAll employeeLine page.results
  Attachment.save northwind key upload
  let hello ← Attachment.get northwind key
  let metadata := Event.headersText (arrange.apply hello.metadata)
  say s!"\nattachment: {hello.data.length} bytes, metadata {metadata}"
  Attachment.remove northwind key

/-- The whole program, with its settings from named values. -/
def program (arrange : TextMap.Arrangement) (lookup : String → Option String) : Operation Unit := do
  tour arrange (← .ofExcept (Settings.ofLookup lookup))

end DocumentClient.Northwind
