import DocumentClient.Misuse
import DocumentClient.Percent
import DocumentClient.Text.Pieces

/-!
# Path segments

A name becomes one segment of a URL path, a key or an index name becomes several. What would
leave its place in the path is either escaped, or refused when escaping cannot help: the empty
segment and the two dot segments.
-/

set_option autoImplicit false

namespace DocumentClient.PathSegment

/-- What a URL reader would not keep inside a segment as it stands, and the escape sign itself. -/
def escaped : Percent.EscapeSet :=
  Percent.controls.adding " \"#<>`?\x7b\x7d/\\%"

/-- The written form of one segment; `what` names it in the error. -/
def encode (segment what : String) : Except Misuse String :=
  if segment = "" then .error (.missing what)
  else if segment = "." ∨ segment = ".." then .error (.dotSegment segment what)
  else .ok (Percent.encode escaped segment)

/-- The written form of a path: a slash separates segments, and the first refused one decides. -/
def encodePath (path what : String) : Except Misuse String :=
  ((Text.piecesOf '/' path).mapM (encode · what)).map (Text.join "/")

end DocumentClient.PathSegment
