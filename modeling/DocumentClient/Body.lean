import DocumentClient.Error

/-!
# Bodies

Values as JSON in bytes, and as the query string of a URL. What goes wrong here is an error of the
operation that it happens in.
-/

set_option autoImplicit false

namespace DocumentClient

/-- The value in a body. What stands behind it does not matter. -/
def decodeBody {α : Type} (decoder : Json.Decoder α) (body : Bytes) : Except Error α :=
  (Json.decode decoder body).mapError fun fault => .decoding (.undecodable fault)

def Error.decodeBody? {α : Type} (decoder : Json.Decoder α) (error : Error) :
    Option (Except Error α) :=
  error.body?.map (decodeBody decoder)

def encodeBody (datum : Datum) : Except Error Bytes :=
  ((Json.write datum).map utf8).mapError fun fault => .json (.writing fault)

def queryString (datum : Datum) : Except Error String :=
  (Form.write datum).mapError .form

end DocumentClient
