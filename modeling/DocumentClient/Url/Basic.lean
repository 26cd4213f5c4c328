import DocumentClient.Percent
import DocumentClient.Text.Pieces

/-!
# URLs

An absolute URL in its parts, and its one written form. Every part is kept as it is written,
with its escapes.
-/

set_option autoImplicit false

namespace DocumentClient

namespace Url

/-- A host: a name, or an address with its written form chosen on output. -/
inductive Host where
  | named (name : String)
  | ipv4 (address : UInt32)
  | ipv6 (groups : List UInt16)
deriving Repr, DecidableEq

/-- What stands between the two slashes and the path. The port is absent when it is the
scheme's own, and a password is never empty. -/
structure Authority where
  username : String := ""
  password : Option String := none
  host : Option Host
  port : Option Nat := none
deriving Repr, DecidableEq

/-- A path of segments behind slashes, or one text that cannot be taken apart. An authority may
be followed by no segment at all. -/
inductive Path where
  | absolute (segments : List String)
  | rootless (text : String)
deriving Repr, DecidableEq

inductive Fault where
  | emptyHost
  | domainName
  | port
  | ipv4
  | ipv6
  | hostCharacter
  | relative
deriving Repr, DecidableEq

def Fault.message : Fault → String
  | .emptyHost => "empty host"
  | .domainName => "invalid international domain name"
  | .port => "invalid port number"
  | .ipv4 => "invalid IPv4 address"
  | .ipv6 => "invalid IPv6 address"
  | .hostCharacter => "invalid domain character"
  | .relative => "relative URL without a base"

end Url

structure Url where
  scheme : String
  authority : Option Url.Authority := none
  path : Url.Path
  query : Option String := none
  fragment : Option String := none
deriving Repr, DecidableEq

namespace Url

/-- The octets of an address in decimal, the highest first. -/
def ipv4Text (address : UInt32) : String :=
  let octet (place : Nat) : String := toString (address.toNat / Nat.pow 256 place % 256)
  Text.join "." [octet 3, octet 2, octet 1, octet 0]

def groupText (group : UInt16) : String :=
  String.ofList (Nat.toDigits 16 group.toNat)

/-- Where the longest run of zero groups starts, and its length; of equal runs the first. -/
def zeroRun (groups : List UInt16) : Nat × Nat :=
  (List.range groups.length).foldl
    (fun best start =>
      let length := ((groups.drop start).takeWhile (· == 0)).length
      if best.2 < length then (start, length) else best)
    (0, 0)

/-- The longest run of at least two zero groups is left out between two colons. -/
def ipv6Text (groups : List UInt16) : String :=
  let (start, length) := zeroRun groups
  let written (part : List UInt16) : String := Text.join ":" (part.map groupText)
  if length < 2 then written groups
  else written (groups.take start) ++ "::" ++ written (groups.drop (start + length))

def Host.text : Host → String
  | .named name => name
  | .ipv4 address => ipv4Text address
  | .ipv6 groups => "[" ++ ipv6Text groups ++ "]"

/-- The credentials in front of a host: nothing when both are empty. -/
def Authority.credentials (authority : Authority) : String :=
  match authority.username, authority.password with
  | "", none => ""
  | username, none => username ++ "@"
  | username, some password => username ++ ":" ++ password ++ "@"

def Authority.endpoint (authority : Authority) : String :=
  ((authority.host.map Host.text).getD "") ++
    match authority.port with
    | none => ""
    | some port => ":" ++ toString port

def Authority.text (authority : Authority) : String :=
  authority.credentials ++ authority.endpoint

def Path.text : Path → String
  | .absolute segments => String.join (segments.map ("/" ++ ·))
  | .rootless text => text

def pathText (url : Url) : String :=
  url.path.text

/-- A path with an empty first segment would read as an authority, so it is set off by a dot. -/
def separator (url : Url) : String :=
  match url.authority, url.path with
  | none, .absolute ("" :: _ :: _) => "/."
  | _, _ => ""

def text (url : Url) : String :=
  url.scheme ++ ":" ++
    ((url.authority.map fun authority => "//" ++ authority.text).getD "") ++
    url.separator ++ url.pathText ++
    ((url.query.map ("?" ++ ·)).getD "") ++
    ((url.fragment.map ("#" ++ ·)).getD "")

instance : ToString Url := ⟨text⟩

end Url

end DocumentClient
