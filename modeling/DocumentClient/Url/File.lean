import DocumentClient.Url.Parts

/-!
# Reading file URLs

A file URL names a file on a host or on a drive. A drive is a letter and its mark at the start of
the path, and from there no double dot leads out of it.
-/

set_option autoImplicit false

namespace DocumentClient.Url

/-! ## Paths -/

/-- The segments of a file path; `atDrive` tells whether the first of them was found to be a
drive. -/
structure FilePath where
  segments : List String
  atDrive : Bool
deriving Repr, DecidableEq

/-- The drive in front of more text, if tabs or line breaks stand between the two. -/
def cutDrive? (segment : List Char) : Option (String × List Char) :=
  match segment.dropWhile isBreak with
  | [] => none
  | letter :: rest =>
    match rest.dropWhile isBreak with
    | ':' :: behind =>
      if letter.isAlpha && behind.head?.any isBreak && !(withoutBreaks behind).isEmpty then
        some (String.ofList [letter, ':'], behind)
      else none
    | _ => none

/-- The path behind a segment that is no dot segment. Only the first segment can be a drive, which is
written with a colon. -/
def FilePath.push (path : FilePath) (segment : List Char) : FilePath :=
  let text := escape inPath (withoutBreaks segment)
  if !path.segments.isEmpty then { path with segments := path.segments ++ [text] }
  else if isDrive text then ⟨[String.ofList (text.toList.take 1 ++ [':'])], true⟩
  else
    match cutDrive? segment with
    | none => { path with segments := [text] }
    | some (drive, behind) =>
      { path with segments := [drive, escape inPath (withoutBreaks behind)] }

def FilePath.resolve (path : FilePath) : List (List Char) → FilePath
  | [] => path
  | segment :: rest =>
    let text := escape inPath (withoutBreaks segment)
    if isDoubleDot text then
      let kept :=
        if path.segments.getLast?.any isDrive then path.segments else path.segments.dropLast
      if rest.isEmpty then { path with segments := kept ++ [""] }
      else FilePath.resolve { path with segments := kept } rest
    else if isDot text then
      if rest.isEmpty then { path with segments := path.segments ++ [""] }
      else path.resolve rest
    else (path.push segment).resolve rest

/-- The path that a text stands for. It starts with no empty segment, unless that is the only one. -/
def FilePath.read (chars : List Char) : FilePath :=
  let slashed := chars.map fun char => if isSlash true char then '/' else char
  let path := FilePath.resolve ⟨[], false⟩ (Text.pieces '/' slashed)
  match path.segments.dropWhile (· == "") with
  | [] => { path with segments := [""] }
  | kept => { path with segments := kept }

/-! ## Whole URLs -/

def takeSlash? (chars : List Char) : Option (List Char) :=
  match chars.dropWhile isBreak with
  | [] => none
  | first :: rest => if isSlash true first then some rest else none

/-- A file URL from its host and the text behind it. A drive at the start of the path replaces the
host. -/
def assembleFile (host : Option Host) (chars : List Char) : Url :=
  let path := FilePath.read (chars.takeWhile (!endsPath ·))
  assemble "file" .file (some { host := if path.atDrive then none else host })
    (.absolute path.segments) (withoutBreaks (chars.dropWhile (!endsPath ·)))

/-- A file URL has a host only behind two slashes. A drive is no host, and neither is the local host.
Where a host could stand and none does, the slash behind it belongs to the path. Tabs and line
breaks count here, as they tell drives from other text. -/
def readFile (chars : List Char) : Except Fault Url :=
  match (takeSlash? chars).bind takeSlash? with
  | none => .ok (assembleFile none ((takeSlash? chars).getD chars))
  | some rest =>
    let hostText := withoutBreaks (rest.takeWhile (!endsAuthority true ·))
    let behind := rest.dropWhile (!endsAuthority true ·)
    if hostText.isEmpty || isDrive (String.ofList hostText) then .ok (assembleFile none rest)
    else
      match readHost hostText with
      | .error fault => .error fault
      | .ok (.named "localhost") => .ok (assembleFile none behind)
      | .ok host => .ok (assembleFile (some host) ((takeSlash? behind).getD behind))

end DocumentClient.Url
