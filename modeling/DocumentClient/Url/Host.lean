import DocumentClient.Url.Basic

/-!
# Reading hosts

A host in brackets is an IPv6 address. A name whose last label is a number is an IPv4 address, in
decimal, octal or hexadecimal and with one to four parts. Any other name is kept in lower case.
Names are read by the rules for ASCII: a name with other characters is refused, and has to be given
in its ASCII form.
-/

set_option autoImplicit false

namespace DocumentClient.Url

/-! ## Numbers -/

def digitValue? (base : Nat) (char : Char) : Option Nat :=
  let value :=
    if char.isDigit then some (char.toNat - 48)
    else if 'a' ≤ char ∧ char ≤ 'f' then some (char.toNat - 87)
    else if 'A' ≤ char ∧ char ≤ 'F' then some (char.toNat - 55)
    else none
  value.filter (· < base)

/-- The number that digits stand for, most significant first; no digit is zero. -/
def readNumber? (base : Nat) (digits : List Char) : Option Nat :=
  (digits.mapM (digitValue? base)).map (·.foldl (fun value digit => value * base + digit) 0)

/-! ## IPv4 -/

/-- A part is hexadecimal behind `0x`, octal behind another leading zero, decimal otherwise. -/
def ipv4Part? : List Char → Option Nat
  | [] => none
  | '0' :: 'x' :: digits => readNumber? 16 digits
  | '0' :: 'X' :: digits => readNumber? 16 digits
  | '0' :: next :: digits => readNumber? 8 (next :: digits)
  | digits => readNumber? 10 digits

/-- The labels of a name, without the empty one behind a final dot. -/
def labels (name : List Char) : List (List Char) :=
  let all := Text.pieces '.' name
  if all.getLast? = some [] then all.dropLast else all

/-- Whether the last label of a name is a number, which makes the whole name an address. -/
def endsInNumber (name : List Char) : Bool :=
  match (labels name).getLast? with
  | none => false
  | some [] => false
  | some last => last.all Char.isDigit || (ipv4Part? last).isSome

/-- The last part fills all the octets that the parts before it leave. -/
def readIpv4 (name : List Char) : Except Fault UInt32 :=
  match (labels name).mapM ipv4Part? with
  | none => .error .ipv4
  | some numbers =>
    match numbers.getLast? with
    | none => .error .ipv4
    | some last =>
      let leading := numbers.dropLast
      if 4 < numbers.length ∨ Nat.pow 256 (4 - leading.length) ≤ last ∨ leading.any (255 < ·) then
        .error .ipv4
      else
        let high := leading.foldl (fun value octet => value * 256 + octet) 0
        .ok (UInt32.ofNat (high * Nat.pow 256 (4 - leading.length) + last))

/-! ## IPv6 -/

def ipv6Group? (digits : List Char) : Option UInt16 :=
  if digits.isEmpty ∨ 4 < digits.length then none
  else (readNumber? 16 digits).map UInt16.ofNat

def strictOctet? (digits : List Char) : Option Nat :=
  match digits with
  | [] => none
  | '0' :: _ :: _ => none
  | _ => (readNumber? 10 digits).filter (· < 256)

/-- Four octets in the place of the last two groups. -/
def dottedGroups? (chars : List Char) : Option (List UInt16) := do
  match ← (Text.pieces '.' chars).mapM strictOctet? with
  | [a, b, c, d] => some [UInt16.ofNat (a * 256 + b), UInt16.ofNat (c * 256 + d)]
  | _ => none

/-- Groups between colons, the last of which may be a dotted address where `dotted` allows it. -/
def ipv6Groups? (dotted : Bool) (chars : List Char) : Option (List UInt16) :=
  if chars.isEmpty then some []
  else
    let parts := Text.pieces ':' chars
    match parts.getLast? with
    | none => some []
    | some last =>
      if dotted && last.contains '.' then do
        let groups ← parts.dropLast.mapM ipv6Group?
        let tail ← dottedGroups? last
        some (groups ++ tail)
      else parts.mapM ipv6Group?

/-- What stands before and after the first two neighbouring colons. -/
def splitAtGap? : List Char → Option (List Char × List Char)
  | ':' :: ':' :: after => some ([], after)
  | char :: rest => (splitAtGap? rest).map fun (before, after) => (char :: before, after)
  | [] => none

/-- Eight groups, or fewer around a gap that stands for at least one zero group. -/
def readIpv6 (chars : List Char) : Except Fault (List UInt16) :=
  let groups : Option (List UInt16) :=
    match splitAtGap? chars with
    | none => (ipv6Groups? true chars).filter (·.length = 8)
    | some (before, after) => do
      let front ← ipv6Groups? false before
      let back ← ipv6Groups? true after
      if front.length + back.length ≤ 7 then
        some (front ++ List.replicate (8 - front.length - back.length) 0 ++ back)
      else none
  match groups with
  | some groups => .ok groups
  | none => .error .ipv6

/-! ## Hosts -/

def isForbiddenInDomain (char : Char) : Bool :=
  char.toNat ≤ 0x20 || 0x7F ≤ char.toNat || "%#/:<>?@[\\]^|".toList.contains char

def isForbiddenInHost (char : Char) : Bool :=
  "\x00\t\n\r #/:<>?@[\\]^|".toList.contains char

/-- A domain name in lower case, its escapes resolved. There is no IDNA step: a name with characters
outside ASCII is refused instead of being put into its ASCII form, and a label that begins with
"xn--" is taken as it stands, whatever it encodes. -/
def readDomain (chars : List Char) : Except Fault (List Char) :=
  match Utf8.charsFrom (Percent.decode (chars.flatMap String.utf8EncodeChar)) 0 with
  | .error _ => .error .domainName
  | .ok name =>
    if name.any isForbiddenInDomain then .error .domainName
    else .ok (name.map Char.toLower)

def readBracketed (chars : List Char) : Except Fault Host :=
  if chars.getLast? = some ']' then (readIpv6 chars.tail.dropLast).map .ipv6
  else .error .ipv6

/-- The host of a scheme whose hosts are domain names and addresses. -/
def readHost (chars : List Char) : Except Fault Host :=
  if chars.head? = some '[' then readBracketed chars
  else
    match readDomain chars with
    | .error fault => .error fault
    | .ok name =>
      if name.isEmpty then .error .emptyHost
      else if endsInNumber name then (readIpv4 name).map .ipv4
      else .ok (.named (String.ofList name))

/-- The host of any other scheme: an IPv6 address, or a text of which only control characters and
characters outside ASCII are escaped. The empty text is no host. -/
def readPlainHost (chars : List Char) : Except Fault (Option Host) :=
  if chars.head? = some '[' then (readBracketed chars).map some
  else if chars.any isForbiddenInHost then .error .hostCharacter
  else if chars.isEmpty then .ok none
  else .ok (some (.named (String.ofList (Percent.encodeChars Percent.controls chars))))

end DocumentClient.Url
