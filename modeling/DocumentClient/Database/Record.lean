import DocumentClient.Body
import DocumentClient.Json.Record
import DocumentClient.TextMap

/-!
# Database records

The server keeps a document for each of its databases. A listing is a list of such documents,
each of which is reduced to what a caller wants to know.
-/

set_option autoImplicit false

namespace DocumentClient.Database

/-- What the server knows about a document. -/
structure Metadata where
  id : String := ""
  etag : Option String := none
deriving Repr, DecidableEq

/-- The document of a database. -/
structure Record where
  metadata : Metadata := {}
  lastModified : Option String := none
  settings : TextMap := ∅
deriving Repr, DecidableEq

/-- What the ids of all these documents begin with. -/
def idStart : String := "Raven/Databases"

def directorySetting : String := "Raven/DataDir"

/-! ## Decoding -/

def Metadata.record : Json.Record Metadata :=
  ⟨"DocumentMetadata", {},
    [.needed "@id" Json.text fun id metadata => { metadata with id },
     .defaulted "@etag" (Json.optional Json.text) fun etag metadata => { metadata with etag }]⟩

def textMap : Json.Decoder TextMap :=
  (Json.members Json.text).map TextMap.ofList

def Record.record : Json.Record Record :=
  ⟨"DatabaseRecord", {},
    [.needed "@metadata" Metadata.record.decoder fun metadata record => { record with metadata },
     .defaulted "Last-Modified" (Json.optional Json.text) fun lastModified record =>
       { record with lastModified },
     .defaulted "Settings" textMap fun settings record => { record with settings }]⟩

/-! ## Listing -/

/-- A database as it is listed. -/
structure Info where
  id : String
  name : String
  lastModified : Option String
  dataDirectory : Option String
  etag : Option String
deriving Repr, DecidableEq

/-- The name of a database is what follows the last slash of its id. -/
def Info.ofRecord (record : Record) : Info :=
  ⟨record.metadata.id, Text.afterLast '/' record.metadata.id, record.lastModified,
    record.settings.get? directorySetting, record.metadata.etag⟩

def parseListing (body : Bytes) : Except Error (List Info) :=
  (decodeBody (Json.list Record.record.decoder) body).map (·.map Info.ofRecord)

end DocumentClient.Database
