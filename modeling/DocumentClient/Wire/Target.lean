import DocumentClient.Error

/-!
# Request targets

What the wire makes of the text of a URL: a scheme, an authority, and the path with its query. The
wire is stricter than URLs are, so a text may be refused here.
-/

set_option autoImplicit false

namespace DocumentClient.Wire

/-- A URL as the wire takes it. Without a scheme the whole text is an authority. -/
structure Target where
  scheme : Option String
  authority : String
  path : String
deriving Repr, DecidableEq

def greatestTarget : Nat := 65534

def greatestScheme : Nat := 64

def isSchemeChar (char : Char) : Bool :=
  char.isAlphanum || "+-.".toList.contains char

/-- The characters of a target, the percent sign apart. -/
def isTargetChar (char : Char) : Bool :=
  char.isAlphanum || "!#$&'()*+,-./:;=?@[]_~".toList.contains char

/-! ## Schemes -/

def splitScheme (chars : List Char) : Except RequestFault (Option String × List Char) :=
  let scheme := chars.takeWhile isSchemeChar
  match chars.dropWhile isSchemeChar with
  | ':' :: '/' :: '/' :: rest =>
    if greatestScheme < scheme.length then .error .schemeTooLong
    else .ok (some (String.ofList scheme), rest)
  | _ => .ok (none, chars)

/-! ## Authorities -/

/-- What has been seen of an authority: colons behind the credentials and the brackets, the
brackets, and whether the host holds an escape. -/
structure Scan where
  colons : Nat := 0
  opened : Bool := false
  closed : Bool := false
  escaped : Bool := false
deriving Repr, DecidableEq

def Scan.step (scan : Scan) (char : Char) : Except RequestFault Scan :=
  match char with
  | ':' =>
    if 8 ≤ scan.colons then .error .targetAuthority
    else .ok { scan with colons := scan.colons + 1 }
  | '[' =>
    if scan.escaped || scan.opened then .error .targetAuthority
    else .ok { scan with opened := true }
  | ']' =>
    if !scan.opened || scan.closed then .error .targetAuthority
    else .ok { scan with closed := true, colons := 0, escaped := false }
  | '@' => .ok { scan with colons := 0, escaped := false }
  | '%' => .ok { scan with escaped := true }
  | _ => if isTargetChar char then .ok scan else .error .targetCharacter

/-- An authority has closed brackets, one colon in front of a port, a host behind its credentials,
and no escape in its host. -/
def checkAuthority (chars : List Char) : Except RequestFault Unit := do
  let scan ← chars.foldlM Scan.step {}
  if scan.opened != scan.closed || 1 < scan.colons || chars.getLast? == some '@' || scan.escaped
  then .error .targetAuthority
  else .ok ()

def endsAuthority (char : Char) : Bool :=
  char == '/' || char == '?' || char == '#'

/-! ## Targets -/

namespace Target

/-- The target of a text. Something has to stand behind a scheme. -/
def read (text : String) : Except RequestFault Target := do
  if greatestTarget < (utf8 text).length then .error .targetTooLong
  let (scheme, rest) ← splitScheme text.toList
  if rest.isEmpty then .error .targetEmpty
  let authority := rest.takeWhile (!endsAuthority ·)
  let path := (rest.dropWhile (!endsAuthority ·)).takeWhile (· != '#')
  checkAuthority authority
  match scheme with
  | none =>
    if authority.length ≠ rest.length then .error .targetFormat
    else .ok ⟨none, String.ofList authority, ""⟩
  | some scheme =>
    if authority.isEmpty then .error .targetFormat
    else .ok ⟨some scheme, String.ofList authority, String.ofList path⟩

def endpoint (target : Target) : String :=
  Text.afterLast '@' target.authority

/-- What stands in the request line: at least a slash. -/
def line (target : Target) : String :=
  if target.path.toList.head? = some '/' then target.path else "/" ++ target.path

end Target

end DocumentClient.Wire
