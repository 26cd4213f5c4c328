import DocumentClient.Url.Host

/-!
# Parts of URLs

How a text is cut into the parts of a URL, what each part escapes, and how the dot segments of a
path are resolved, in their escaped spellings too.
-/

set_option autoImplicit false

namespace DocumentClient.Url

/-! ## Schemes -/

/-- The three ways in which the text behind a scheme is read. -/
inductive SchemeKind where
  | file
  | web (defaultPort : Nat)
  | other
deriving Repr, DecidableEq

def SchemeKind.ofScheme (scheme : String) : SchemeKind :=
  match scheme with
  | "file" => .file
  | "http" | "ws" => .web 80
  | "https" | "wss" => .web 443
  | "ftp" => .web 21
  | _ => .other

/-- Schemes in which a backslash is a slash and a path is never empty. -/
def SchemeKind.isSpecial : SchemeKind → Bool
  | .other => false
  | _ => true

def SchemeKind.defaultPort? : SchemeKind → Option Nat
  | .web port => some port
  | _ => none

def isSchemeChar (char : Char) : Bool :=
  char.isAlphanum || char == '+' || char == '-' || char == '.'

def splitScheme? (chars : List Char) : Option (String × List Char) :=
  match chars.takeWhile isSchemeChar, chars.dropWhile isSchemeChar with
  | first :: more, ':' :: rest =>
    if first.isAlpha then some (String.ofList ((first :: more).map Char.toLower), rest) else none
  | _, _ => none

/-! ## Cutting -/

/-- A character that does not count at either end of a URL. -/
def isBlank (char : Char) : Bool :=
  char.toNat ≤ 0x20

/-- A character that does not count anywhere in a URL. -/
def isBreak (char : Char) : Bool :=
  char == '\t' || char == '\n' || char == '\r'

def trim (text : String) : List Char :=
  ((text.toList.dropWhile isBlank).reverse.dropWhile isBlank).reverse

def withoutBreaks (chars : List Char) : List Char :=
  chars.filter (!isBreak ·)

def strip (text : String) : List Char :=
  withoutBreaks (trim text)

def isSlash (special : Bool) (char : Char) : Bool :=
  char == '/' || (special && char == '\\')

def endsPath (char : Char) : Bool :=
  char == '?' || char == '#'

def endsAuthority (special : Bool) (char : Char) : Bool :=
  isSlash special char || endsPath char

/-! ## Escapes -/

def inFragment : Percent.EscapeSet :=
  Percent.controls.adding " \"<>`"

def inPath : Percent.EscapeSet :=
  inFragment.adding "#?\x7b\x7d"

def inCredentials : Percent.EscapeSet :=
  inPath.adding "/:;=@[\\]^|"

def inQuery (special : Bool) : Percent.EscapeSet :=
  Percent.controls.adding (if special then " \"#<>'" else " \"#<>")

def escape (escaped : Percent.EscapeSet) (chars : List Char) : String :=
  String.ofList (Percent.encodeChars escaped chars)

/-! ## Paths -/

/-- A colon or a bar, which marks the letter in front of it as a drive. -/
def isDriveMark (char : Char) : Bool :=
  char == ':' || char == '|'

def isDrive (segment : String) : Bool :=
  match segment.toList with
  | [letter, mark] => letter.isAlpha && isDriveMark mark
  | _ => false

/-- A drive, alone or in front of a backslash. -/
def standsForDrive (segment : String) : Bool :=
  match segment.toList with
  | letter :: mark :: rest =>
    letter.isAlpha && isDriveMark mark && rest.head?.all (· == '\\')
  | _ => false

def isDot (segment : String) : Bool :=
  segment == "." || segment == "%2e" || segment == "%2E"

def isDoubleDot (segment : String) : Bool :=
  let dots := [".", "%2e", "%2E"]
  dots.any fun first => dots.any fun second => segment == first ++ second

/-- The segments left when each double dot has taken back the segment before it. A drive is not
taken back, and a dot segment at the end leaves a slash. -/
def resolveDots (done : List String) : List String → List String
  | [] => done
  | segment :: rest =>
    if isDoubleDot segment then
      let kept := if done.getLast?.any standsForDrive then done else done.dropLast
      if rest.isEmpty then kept ++ [""] else resolveDots kept rest
    else if isDot segment then
      if rest.isEmpty then done ++ [""] else resolveDots done rest
    else resolveDots (done ++ [segment]) rest

/-- The escaped segments of a path text, cut at every slash. -/
def rawSegments (special : Bool) (chars : List Char) : List String :=
  let slashed := chars.map fun char => if isSlash special char then '/' else char
  (Text.pieces '/' slashed).map (escape inPath)

def readSegments (special : Bool) (chars : List Char) : List String :=
  resolveDots [] (rawSegments special chars)

def dropSlash (special : Bool) (chars : List Char) : List Char :=
  match chars with
  | first :: rest => if isSlash special first then rest else first :: rest
  | [] => []

/-! ## Query and fragment -/

def readTail (special : Bool) (chars : List Char) : Option String × Option String :=
  let beforeHash := chars.takeWhile (· != '#')
  let query := match beforeHash with
    | '?' :: query => some (escape (inQuery special) query)
    | _ => none
  let fragment := match chars.dropWhile (· != '#') with
    | [] => none
    | _ :: fragment => some (escape inFragment fragment)
  (query, fragment)

/-! ## Together -/

def assemble (scheme : String) (kind : SchemeKind) (authority : Option Authority) (path : Path)
    (tail : List Char) : Url :=
  let (query, fragment) := readTail kind.isSpecial tail
  ⟨scheme, authority, path, query, fragment⟩

end DocumentClient.Url
