import DocumentClient.Connection
import DocumentClient.Database.Record

/-!
# Database administration

Whether a database exists, its creation and removal, and the listing of all of them. All this
happens at the root of the server, whatever database is selected.
-/

set_option autoImplicit false

namespace DocumentClient.Database

/-- Where requests about databases go. -/
def scope (settings : Settings) : Settings :=
  settings.withoutDatabase

def documentPath (name : String) : Except Error String :=
  ((PathSegment.encode name "database name").map (s!"docs/{idStart}/" ++ ·)).mapError .validation

def listingPath : String := "databases"

def dataDirectory (name : String) : String :=
  "~/Tenants/" ++ name

def document (name : String) : Datum :=
  .table [(.text "Settings", .table [(.text directorySetting, .text (dataDirectory name))])]

def contains (settings : Settings) (name : String) : Operation Bool := do
  let path ← .ofExcept (documentPath name)
  let response ← (scope settings).get path
  if response.status = 404 then return false
  else
    let _ ← .ofExcept (response.expectStatus 200 "failed to check database existence")
    return true

def putDocument (settings : Settings) (name path : String) : Operation Unit := do
  Operation.noting (.creatingDatabase name)
  let request ← .ofExcept ((scope settings).request .put path)
  let request ← .ofExcept (request.json (document name))
  let response ← Settings.dispatch request
  let _ ← .ofExcept (response.expectStatus 201 "failed to create database")
  return ()

/-- Creates a database that does not exist yet. -/
def create (settings : Settings) (name : String) : Operation Unit := do
  let path ← .ofExcept (documentPath name)
  if ← contains settings name then .done (.error (.alreadyExists name))
  else putDocument settings name path

/-- Creates a database unless it exists. -/
def ensureExists (settings : Settings) (name : String) : Operation Unit := do
  let path ← .ofExcept (documentPath name)
  if ← contains settings name then Operation.noting (.skippingDatabase name)
  else putDocument settings name path

def remove (settings : Settings) (name : String) : Operation Unit := do
  let path ← .ofExcept (documentPath name)
  let response ← (scope settings).delete path
  let _ ← .ofExcept (response.expectStatus 204 "failed to delete database")
  return ()

def list (settings : Settings) : Operation (List Info) := do
  let response ← (scope settings).get listingPath
  let response ← .ofExcept (response.expectStatus 200 "failed to list databases")
  .ofExcept (parseListing response.body)

end DocumentClient.Database
