import DocumentClient.Connection
import DocumentClient.Text.Case

/-!
# Attachments

Content stored under a key, with metadata that travels as headers. Names of metadata are in lower
case, and the headers that serve the transport are no metadata.
-/

set_option autoImplicit false

namespace DocumentClient

/-- What is read back. -/
structure Attachment where
  data : Bytes
  metadata : TextMap
deriving Repr, DecidableEq

namespace Attachment

def contentTypeName : String := "content-type"

def transportHeaders : List String :=
  ["content-length", "connection", "date", "server", "transfer-encoding"]

/-- What is to be stored. -/
structure Upload where
  content : Bytes
  metadata : TextMap := ∅
deriving Repr, DecidableEq

/-- Adds metadata. The spelling of a name does not matter. -/
def Upload.withMetadata (upload : Upload) (name value : String) : Upload :=
  { upload with metadata := upload.metadata.insert (Text.lowerCase name) value }

/-- The headers that are sent: the metadata, and a kind of content if they name none. -/
def Upload.headers (upload : Upload) : TextMap :=
  (TextMap.ofList [(contentTypeName, Http.ContentType.octets.text)]).insertAll
    upload.metadata.entries

def path (key : String) : Except Error String :=
  ((PathSegment.encodePath key "attachment key").map ("static/" ++ ·)).mapError .validation

def ofResponse (response : Http.Response) : Attachment :=
  ⟨response.body, response.headers.filterKeys fun name =>
    !transportHeaders.contains (Text.lowerCase name)⟩

def get (settings : Settings) (key : String) : Operation Attachment := do
  let path ← .ofExcept (path key)
  let response ← settings.get path
  let response ← .ofExcept (response.expectStatus 200 "failed to get attachment")
  return ofResponse response

def save (settings : Settings) (key : String) (upload : Upload) : Operation Unit := do
  let path ← .ofExcept (path key)
  let request ← .ofExcept (settings.request .put path)
  let response ← Settings.dispatch
    ((request.addHeaders upload.headers.entries).withBody upload.content)
  let _ ← .ofExcept (response.expectStatus 201 "failed to save attachment")
  return ()

def remove (settings : Settings) (key : String) : Operation Unit := do
  let path ← .ofExcept (path key)
  let response ← settings.delete path
  let _ ← .ofExcept (response.expectStatus 204 "failed to delete attachment")
  return ()

end Attachment

end DocumentClient
