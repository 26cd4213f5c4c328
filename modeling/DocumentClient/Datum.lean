import DocumentClient.Decimal.Layout
import DocumentClient.Text.Utf8

/-!
# Data to be written

What a caller may put into a body or a query string. Each format decides which of these it can
write and how.
-/

set_option autoImplicit false

namespace DocumentClient

/-- A value to be written. A `failing` value refuses to be written, with its own text. -/
inductive Datum where
  | unit
  | absent
  | present (value : Datum)
  | bool (value : Bool)
  | integer (value : Int)
  | real (value : Decimal.Binary)
  | char (value : Char)
  | text (value : String)
  | bytes (value : Bytes)
  | list (items : List Datum)
  | pair (first second : Datum)
  | table (entries : List (Datum × Datum))
  | failing (reason : String)
deriving Repr

end DocumentClient
