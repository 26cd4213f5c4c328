import DocumentClient.Url.File

/-!
# Reading URLs

An absolute URL is read from any text, leniently: surrounding blanks, tabs and line breaks do not
count, backslashes are slashes in the schemes of the web, and whatever a part may not hold is
escaped there.
-/

set_option autoImplicit false

namespace DocumentClient.Url

/-! ## Authorities -/

/-- What stands before and after the last at sign. -/
def splitAtLastAt? : List Char → Option (List Char × List Char)
  | [] => none
  | char :: rest =>
    match splitAtLastAt? rest with
    | some (before, after) => some (char :: before, after)
    | none => if char = '@' then some ([], rest) else none

/-- A host ends at the first colon outside brackets. -/
def splitHost (bracketed : Bool) : List Char → List Char × List Char
  | [] => ([], [])
  | char :: rest =>
    if char = ':' ∧ ¬ bracketed then ([], char :: rest)
    else
      let (host, after) :=
        splitHost (if char = '[' then true else if char = ']' then false else bracketed) rest
      (char :: host, after)

/-- User name and password; an empty password does not count. -/
def readCredentials (chars : List Char) : String × Option String :=
  let username := escape inCredentials (chars.takeWhile (· != ':'))
  match chars.dropWhile (· != ':') with
  | [] | [_] => (username, none)
  | _ :: password => (username, some (escape inCredentials password))

/-- The port behind a host, unless it is the scheme's own, and what stands behind its digits. -/
def readPort (kind : SchemeKind) (chars : List Char) :
    Except Fault (Option Nat × List Char) :=
  let digits := chars.takeWhile Char.isDigit
  let rest := chars.dropWhile Char.isDigit
  let value := (readNumber? 10 digits).getD 0
  if 65535 < value then .error .port
  else if !rest.isEmpty && rest.head? != some '\\' then .error .port
  else if digits.isEmpty || kind.defaultPort? == some value then .ok (none, rest)
  else .ok (some value, rest)

def readHostOf (kind : SchemeKind) (chars : List Char) : Except Fault (Option Host) :=
  match kind with
  | .other => readPlainHost chars
  | _ => if chars.isEmpty then .error .emptyHost else (readHost chars).map some

/-- An authority from its own text; `followed` tells whether anything stands behind it. The second
part is what its port left over. -/
def readAuthority (kind : SchemeKind) (chars : List Char) (followed : Bool) :
    Except Fault (Authority × List Char) := do
  let split := splitAtLastAt? chars
  let (username, password) := readCredentials ((split.map (·.1)).getD [])
  let endpoint := (split.map (·.2)).getD chars
  if split.any (·.1.isEmpty) ∧ endpoint.isEmpty ∧ followed then .error .emptyHost
  let (hostText, behind) := splitHost false endpoint
  let host ← readHostOf kind hostText
  if host.isNone ∧ !behind.isEmpty then .error .emptyHost
  let (port, rest) ← readPort kind (behind.drop 1)
  if host.isNone ∧ (username ≠ "" ∨ password.isSome) then .error .emptyHost
  .ok (⟨username, password, host, port⟩, rest)

/-! ## Whole URLs -/

def readBehindSlashes (scheme : String) (kind : SchemeKind) (chars : List Char) :
    Except Fault Url := do
  let special := kind.isSpecial
  let authorityText := chars.takeWhile (!endsAuthority special ·)
  let behind := chars.dropWhile (!endsAuthority special ·)
  let (authority, leftOver) ← readAuthority kind authorityText (!behind.isEmpty)
  let following := leftOver ++ behind
  let pathText := following.takeWhile (!endsPath ·)
  let tail := following.dropWhile (!endsPath ·)
  let segments :=
    if pathText.isEmpty && !special then [] else readSegments special (dropSlash special pathText)
  .ok (assemble scheme kind (some authority) (.absolute segments) tail)

/-- A scheme without rules of its own: an authority only behind two slashes, and without any slash
a path that cannot be taken apart. -/
def readOther (scheme : String) (chars : List Char) : Except Fault Url :=
  match chars with
  | '/' :: '/' :: rest => readBehindSlashes scheme .other rest
  | '/' :: rest =>
    .ok (assemble scheme .other none
      (.absolute (readSegments false (rest.takeWhile (!endsPath ·))))
      (rest.dropWhile (!endsPath ·)))
  | _ =>
    .ok (assemble scheme .other none
      (.rootless (escape Percent.controls (chars.takeWhile (!endsPath ·))))
      (chars.dropWhile (!endsPath ·)))

/-- The absolute URL that a text stands for, or why it stands for none. -/
def parse (text : String) : Except Fault Url :=
  match splitScheme? (strip text) with
  | none => .error .relative
  | some (scheme, rest) =>
    match SchemeKind.ofScheme scheme with
    | .file => readFile (((trim text).dropWhile (· != ':')).drop 1)
    | .other => readOther scheme rest
    | .web port => readBehindSlashes scheme (.web port) (rest.dropWhile (isSlash true))

end DocumentClient.Url
