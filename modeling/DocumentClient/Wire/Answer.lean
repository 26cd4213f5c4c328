import DocumentClient.Wire.Header

/-!
# Answers of a server

A response read from the bytes that a server sends until it closes. Empty lines and interim
responses in front of it are passed over, and its body ends by its length, by its chunks, or where
the bytes end.
-/

set_option autoImplicit false

namespace DocumentClient.Wire

/-! ## Lines -/

/-- The first line, without its end, and the bytes behind it. -/
def splitLine? : Bytes → Option (Bytes × Bytes)
  | [] => none
  | 10 :: rest => some ([], rest)
  | 13 :: 10 :: rest => some ([], rest)
  | byte :: rest => (splitLine? rest).map fun (line, behind) => (byte :: line, behind)

theorem length_lt_of_splitLine? {bytes line behind : Bytes}
    (found : splitLine? bytes = some (line, behind)) : behind.length < bytes.length := by
  fun_induction splitLine? bytes generalizing line with
  | case1 => cases found
  | case2 rest =>
      cases found
      simp
  | case3 rest =>
      cases found
      simp only [List.length_cons]
      omega
  | case4 byte rest _ _ ih =>
      obtain ⟨⟨first, last⟩, split, same⟩ := Option.map_eq_some_iff.1 found
      cases same
      have := ih split
      simp only [List.length_cons]
      omega

/-- The lines up to the first empty one, and the bytes behind it. -/
def splitHead? (bytes : Bytes) : Option (List Bytes × Bytes) :=
  match _split : splitLine? bytes with
  | none => none
  | some ([], behind) => some ([], behind)
  | some (byte :: line, behind) =>
    (splitHead? behind).map fun (lines, body) => ((byte :: line) :: lines, body)
termination_by bytes.length
decreasing_by exact length_lt_of_splitLine? _split

theorem length_lt_of_splitHead? {bytes body : Bytes} {lines : List Bytes}
    (found : splitHead? bytes = some (lines, body)) : body.length < bytes.length := by
  fun_induction splitHead? bytes generalizing lines with
  | case1 => cases found
  | case2 _ _ split =>
      cases found
      exact length_lt_of_splitLine? split
  | case3 _ _ _ behind split ih =>
      obtain ⟨⟨more, last⟩, rest, same⟩ := Option.map_eq_some_iff.1 found
      cases same
      have := ih rest
      have := length_lt_of_splitLine? split
      omega

def skipEmptyLines : Bytes → Bytes
  | 10 :: rest => skipEmptyLines rest
  | 13 :: 10 :: rest => skipEmptyLines rest
  | bytes => bytes

theorem length_skipEmptyLines_le (bytes : Bytes) :
    (skipEmptyLines bytes).length ≤ bytes.length := by
  fun_induction skipEmptyLines bytes with
  | case1 rest ih => exact Nat.le_trans ih (by simp)
  | case2 rest ih =>
      refine Nat.le_trans ih ?_
      simp only [List.length_cons]
      omega
  | case3 => exact Nat.le_refl _

/-- The first line whose end is written in full, and the bytes behind it. A carriage return stands
nowhere else. -/
def splitFullLine? : Bytes → Option (Bytes × Bytes)
  | [] => none
  | 13 :: 10 :: rest => some ([], rest)
  | 13 :: _ => none
  | byte :: rest => (splitFullLine? rest).map fun (line, behind) => (byte :: line, behind)

theorem length_lt_of_splitFullLine? {bytes line behind : Bytes}
    (found : splitFullLine? bytes = some (line, behind)) : behind.length < bytes.length := by
  fun_induction splitFullLine? bytes generalizing line with
  | case1 => cases found
  | case2 rest =>
      cases found
      simp only [List.length_cons]
      omega
  | case3 => cases found
  | case4 byte rest _ _ ih =>
      obtain ⟨⟨first, last⟩, split, same⟩ := Option.map_eq_some_iff.1 found
      cases same
      have := ih split
      simp only [List.length_cons]
      omega

/-! ## Heads -/

/-- Version one, with or without a minor one, and a status of three digits. -/
structure StatusLine where
  minor : Nat
  status : Nat
deriving Repr, DecidableEq

def StatusLine.read? (line : Bytes) : Option StatusLine := do
  let version := line.take 8
  let minor ←
    if version = utf8 "HTTP/1.1" then some 1
    else if version = utf8 "HTTP/1.0" then some 0
    else none
  match line.drop 8 with
  | 32 :: a :: b :: c :: rest =>
    let status ← digitsValue? [a, b, c]
    if 100 ≤ status ∧ (rest.head?.all (· == 32)) ∧ rest.all isValueByte then some ⟨minor, status⟩
    else none
  | _ => none

def readHeader? (line : Bytes) : Option (String × Bytes) :=
  let name := line.takeWhile (· != 58)
  let chars := name.map fun byte => Char.ofNat byte.toNat
  match line.dropWhile (· != 58) with
  | [] => none
  | _ :: value =>
    if chars.isEmpty || greatestName < chars.length || !chars.all isTokenChar ||
        !(trimBytes value).all isValueByte then none
    else some (Text.lowerCase (String.ofList chars), trimBytes value)

def readHeaders? (limit : Nat) (lines : List Bytes) : Option Headers :=
  if limit < lines.length then none else lines.mapM readHeader?

def greatestHeaderCount : Nat := 100

structure Head where
  line : StatusLine
  headers : Headers
deriving Repr, DecidableEq

namespace Head

def read? (lines : List Bytes) : Option Head := do
  let line ← StatusLine.read? (← lines.head?)
  some ⟨line, ← readHeaders? greatestHeaderCount lines.tail⟩

/-- Whether another head follows. None does when the protocol is switched. -/
def isInterim (head : Head) : Bool :=
  head.line.status < 200 && head.line.status != 101

end Head

/-- The first head that is no interim one, and the bytes behind it. -/
def readHead? (bytes : Bytes) : Option (Head × Bytes) :=
  match _split : splitHead? (skipEmptyLines bytes) with
  | none => none
  | some (lines, behind) =>
    match Head.read? lines with
    | none => none
    | some head => if head.isInterim then readHead? behind else some (head, behind)
termination_by bytes.length
decreasing_by
  exact Nat.lt_of_lt_of_le (length_lt_of_splitHead? _split) (length_skipEmptyLines_le bytes)

/-! ## Bodies -/

inductive BodyEnd where
  | length (bytes : Nat)
  | chunks
  | close
deriving Repr, DecidableEq

def greatestLength : Nat := Nat.pow 2 64 - 3

/-- The end of the body behind a head, unless its framing headers make no sense. -/
def Head.bodyEnd? (head : Head) : Option BodyEnd :=
  if head.line.status ∈ [101, 204, 304] then some (.length 0)
  else if !(valuesOf "transfer-encoding" head.headers).isEmpty then
    if head.line.minor = 0 then none
    else if endsInChunks head.headers then some .chunks
    else some .close
  else match declaredLength? head.headers with
    | some length => if length ≤ greatestLength then some (.length length) else none
    | none => if (valuesOf "content-length" head.headers).isEmpty then some .close else none

/-- The greatest number of bytes that stand behind the sizes of chunks, all in all. -/
def greatestExtensions : Nat := 16383

/-- The size in front of a chunk, and the number of bytes that stand behind it and a semicolon. -/
def chunkSize? (line : Bytes) : Option (Nat × Nat) := do
  let isDigit (byte : UInt8) : Bool := (Percent.hexValue? byte).isSome
  let digits ← (line.takeWhile isDigit).mapM Percent.hexValue?
  let size := digits.foldl (fun value digit => value * 16 + digit) 0
  if digits.isEmpty || Nat.pow 2 64 ≤ size then none
  else match (line.dropWhile isDigit).dropWhile isBlankByte with
    | [] => some (size, 0)
    | mark :: extension =>
      if mark = 59 && !extension.contains 10 then some (size, extension.length) else none

/-- The greatest number of bytes behind the last chunk. -/
def greatestTrailer : Nat := 16383

/-- The lines behind the last chunk, up to the first empty one. -/
def trailerLines? (bytes : Bytes) : Option (List Bytes) :=
  match _split : splitFullLine? bytes with
  | none => none
  | some ([], _) => some []
  | some (byte :: line, behind) => (trailerLines? behind).map ((byte :: line) :: ·)
termination_by bytes.length
decreasing_by exact length_lt_of_splitFullLine? _split

/-- Whether the bytes behind the last chunk are headers. They are of no use, but have to be there.
A line may hold more than one header only if its end is not written in full, and that is too many. -/
def trailerHolds (bytes : Bytes) : Bool :=
  match trailerLines? bytes with
  | none => false
  | some lines =>
    let trailer := (lines ++ [[]]).flatMap fun line => line ++ [13, 10]
    lines.length ≤ greatestHeaderCount && trailer.length ≤ greatestTrailer &&
      ((splitHead? trailer).bind fun head => readHeaders? lines.length head.1).isSome

/-- The bytes of all chunks up to the empty one; `extensions` counts what stood behind the sizes. -/
def readChunks? (extensions : Nat) (bytes : Bytes) : Option Bytes :=
  match _size : splitFullLine? bytes with
  | none => none
  | some (line, behind) =>
    match chunkSize? line with
    | none => none
    | some (size, extension) =>
      if greatestExtensions < extensions + extension then none
      else if size = 0 then if trailerHolds behind then some [] else none
      else
        match _ending : splitFullLine? (behind.drop size) with
        | some ([], rest) =>
          (readChunks? (extensions + extension) rest).map (behind.take size ++ ·)
        | _ => none
termination_by bytes.length
decreasing_by
  have := length_lt_of_splitFullLine? _size
  have := length_lt_of_splitFullLine? _ending
  rw [List.length_drop] at this
  omega

def readBody? (bodyEnd : BodyEnd) (bytes : Bytes) : Option Bytes :=
  match bodyEnd with
  | .length length => if length ≤ bytes.length then some (bytes.take length) else none
  | .chunks => readChunks? 0 bytes
  | .close => some bytes

end DocumentClient.Wire
