import DocumentClient.Error
import DocumentClient.PathSegment
import DocumentClient.Url.Reader

/-!
# Connection settings

The root that all requests are sent to: a host and perhaps a database on it. A relative path is
resolved by writing it behind the root, so that it can never lead elsewhere.
-/

set_option autoImplicit false

namespace DocumentClient

structure Settings where
  host : Url
  database : Option String := none
deriving Repr, DecidableEq

namespace Settings

def hostVariable : String := "RAVEN_HOST"

def databaseVariable : String := "RAVEN_DATABASE"

/-- Settings for a host, which has to be the URL of a web server. A domain name beyond ASCII has to
be given in its ASCII form (see `Url.readDomain`). -/
def ofHost (host : String) : Except Error Settings :=
  match Url.parse host with
  | .error fault => .error (.configuration (.unreadableHost host fault))
  | .ok url =>
    if url.scheme = "http" ∨ url.scheme = "https" then .ok { host := url }
    else .error (.configuration (.schemeOfHost host))

def withDatabase (settings : Settings) (database : String) : Settings :=
  { settings with database := some database }

def withoutDatabase (settings : Settings) : Settings :=
  { settings with database := none }

/-- Settings from named values. The empty text selects no database. -/
def ofLookup (lookup : String → Option String) : Except Error Settings := do
  match lookup hostVariable with
  | none => .error (.configuration (.unset hostVariable))
  | some host =>
    let settings ← ofHost host
    match (lookup databaseVariable).filter (· ≠ "") with
    | none => .ok settings
    | some database => .ok (settings.withDatabase database)

/-- The host in writing, without slashes at its end. -/
def root (settings : Settings) : String :=
  String.ofList ((settings.host.text.toList.reverse.dropWhile (· == '/')).reverse)

def relative (path : String) : String :=
  String.ofList (path.toList.dropWhile (· == '/'))

/-- The text of a path behind the root and the database. -/
def compose (settings : Settings) (path : String) : Except Misuse String :=
  match settings.database with
  | none => .ok (settings.root ++ "/" ++ relative path)
  | some database => do
    let database ← PathSegment.encode database "database name"
    .ok (settings.root ++ "/databases/" ++ database ++ "/" ++ relative path)

def urlFor (settings : Settings) (path : String) : Except Error Url := do
  let text ← (settings.compose path).mapError .validation
  (Url.parse text).mapError .invalidUrl

end Settings

end DocumentClient
