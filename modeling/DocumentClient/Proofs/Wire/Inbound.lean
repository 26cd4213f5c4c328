import DocumentClient.Proofs.Text.Ascii
import DocumentClient.Wire.Answer

/-!
# Requests as a server reads them

The bytes of a connection from a client, read by their own framing: a line of three words, headers
up to an empty line, and behind them the body. A head that was written word by word and line by
line is read back, whatever follows it, as long as no word holds a blank and no line the end of one.
-/

set_option autoImplicit false

namespace DocumentClient.Wire

structure Inbound where
  method : Bytes
  target : Bytes
  headers : Headers
deriving Repr, DecidableEq

def readRequestLine? (line : Bytes) : Option (Bytes × Bytes) :=
  match splitBytes 32 line with
  | [method, target, version] =>
    if version = utf8 "HTTP/1.1" then some (method, target) else none
  | _ => none

/-- The first head, and the bytes behind it. -/
def readInbound? (bytes : Bytes) : Option (Inbound × Bytes) := do
  let (lines, behind) ← splitHead? bytes
  let (method, target) ← readRequestLine? (← lines.head?)
  some (⟨method, target, ← lines.tail.mapM readHeader?⟩, behind)

/-! ## Words and lines -/

theorem splitBytes_of_not_mem {separator : UInt8} {bytes : Bytes} (absent : separator ∉ bytes) :
    splitBytes separator bytes = [bytes] := by
  induction bytes with
  | nil => rfl
  | cons byte bytes ih =>
      have different : byte ≠ separator := fun same => absent (same ▸ List.mem_cons_self)
      rw [splitBytes, if_neg different, ih fun member => absent (List.mem_cons_of_mem _ member)]

private theorem splitBytes_append {separator : UInt8} {bytes : Bytes} (absent : separator ∉ bytes)
    (rest : Bytes) :
    splitBytes separator (bytes ++ separator :: rest) = bytes :: splitBytes separator rest := by
  induction bytes with
  | nil => rw [List.nil_append, splitBytes, if_pos rfl]
  | cons byte bytes ih =>
      have different : byte ≠ separator := fun same => absent (same ▸ List.mem_cons_self)
      rw [List.cons_append, splitBytes, if_neg different,
        ih fun member => absent (List.mem_cons_of_mem _ member)]

/-- A character that may stand inside a word. -/
def isVisible (char : Char) : Bool :=
  32 < char.toNat && char.toNat < 127

private theorem ascii_of_isVisible {char : Char} (visible : isVisible char = true) :
    char.toNat < 128 := by
  simp only [isVisible, Bool.and_eq_true, decide_eq_true_eq] at visible
  omega

theorem utf8_of_ascii {text : String} (ascii : ∀ char ∈ text.toList, char.toNat < 128) :
    utf8 text = text.toList.map Char.toUInt8 :=
  Text.flatMap_utf8EncodeChar_ascii ascii

/-- What holds of the bytes of all visible characters holds of the bytes of a text of them. -/
theorem all_utf8_of_visible (holds : UInt8 → Bool)
    (checked : (List.range 128).all (fun code =>
      !isVisible (Char.ofNat code) || holds (Char.ofNat code).toUInt8) = true)
    {text : String} (visible : ∀ char ∈ text.toList, isVisible char = true) :
    ∀ byte ∈ utf8 text, holds byte = true := by
  intro byte member
  rw [utf8_of_ascii fun char found => ascii_of_isVisible (visible char found)] at member
  obtain ⟨char, found, rfl⟩ := List.mem_map.mp member
  have held := Text.ascii_all (fun char => !isVisible char || holds char.toUInt8) checked
    (ascii_of_isVisible (visible char found))
  simpa [visible char found] using held

private theorem blank_not_mem_utf8 {text : String}
    (visible : ∀ char ∈ text.toList, isVisible char = true) :
    32 ∉ utf8 text := by
  intro member
  exact absurd (all_utf8_of_visible (· != 32) (by decide) visible 32 member) (by decide)

def requestLine (method target : String) : Bytes :=
  utf8 method ++ 32 :: (utf8 target ++ 32 :: utf8 "HTTP/1.1")

private theorem readRequestLine?_requestLine {method target : String}
    (methodVisible : ∀ char ∈ method.toList, isVisible char = true)
    (targetVisible : ∀ char ∈ target.toList, isVisible char = true) :
    readRequestLine? (requestLine method target) = some (utf8 method, utf8 target) := by
  have version : (32 : UInt8) ∉ utf8 "HTTP/1.1" :=
    blank_not_mem_utf8 (List.all_eq_true.mp (by decide))
  rw [readRequestLine?, requestLine, splitBytes_append (blank_not_mem_utf8 methodVisible),
    splitBytes_append (blank_not_mem_utf8 targetVisible), splitBytes_of_not_mem version]
  exact if_pos rfl

def OneLine (bytes : Bytes) : Prop :=
  10 ∉ bytes ∧ 13 ∉ bytes

private theorem oneLine_of_all {bytes : Bytes} (holds : ∀ byte ∈ bytes, byte ≠ 10 ∧ byte ≠ 13) :
    OneLine bytes :=
  ⟨fun member => (holds 10 member).1 rfl, fun member => (holds 13 member).2 rfl⟩

private theorem oneLine_requestLine {method target : String}
    (methodVisible : ∀ char ∈ method.toList, isVisible char = true)
    (targetVisible : ∀ char ∈ target.toList, isVisible char = true) :
    requestLine method target ≠ [] ∧ OneLine (requestLine method target) := by
  have noEnd {text : String} (visible : ∀ char ∈ text.toList, isVisible char = true) :
      ∀ byte ∈ utf8 text, byte ≠ 10 ∧ byte ≠ 13 := by
    intro byte member
    simpa using all_utf8_of_visible (fun byte => byte != 10 && byte != 13) (by decide)
      visible byte member
  constructor
  · simp [requestLine]
  · apply oneLine_of_all
    intro byte member
    simp only [requestLine, List.mem_append, List.mem_cons] at member
    rcases member with member | rfl | member | rfl | member
    · exact noEnd methodVisible byte member
    · decide
    · exact noEnd targetVisible byte member
    · decide
    · exact noEnd (List.all_eq_true.mp (by decide)) byte member

private theorem splitLine?_append {line : Bytes} (one : OneLine line) (rest : Bytes) :
    splitLine? (line ++ 13 :: 10 :: rest) = some (line, rest) := by
  induction line with
  | nil => rfl
  | cons byte line ih =>
      have notEnd : byte ≠ 10 := fun same => one.1 (same ▸ List.mem_cons_self)
      have notReturn : byte ≠ 13 := fun same => one.2 (same ▸ List.mem_cons_self)
      have read := ih ⟨fun member => one.1 (List.mem_cons_of_mem _ member),
        fun member => one.2 (List.mem_cons_of_mem _ member)⟩
      rw [List.cons_append, splitLine?, read]
      · rfl
      · exact notEnd
      · intro _ same
        exact absurd same notReturn

private theorem splitHead?_of_empty {bytes behind : Bytes}
    (found : splitLine? bytes = some ([], behind)) :
    splitHead? bytes = some ([], behind) := by
  rw [splitHead?]
  split <;> simp_all

private theorem splitHead?_of_line {bytes line behind : Bytes} (present : line ≠ [])
    (found : splitLine? bytes = some (line, behind)) :
    splitHead? bytes = (splitHead? behind).map fun (lines, body) => (line :: lines, body) := by
  obtain ⟨byte, line, rfl⟩ := List.exists_cons_of_ne_nil present
  rw [splitHead?]
  split <;> simp_all

def lineBytes (lines : List Bytes) : Bytes :=
  lines.flatMap (· ++ [13, 10])

private theorem splitHead?_lineBytes {lines : List Bytes}
    (whole : ∀ line ∈ lines, line ≠ [] ∧ OneLine line) (body : Bytes) :
    splitHead? (lineBytes lines ++ 13 :: 10 :: body) = some (lines, body) := by
  induction lines with
  | nil => exact splitHead?_of_empty rfl
  | cons line lines ih =>
      obtain ⟨⟨present, one⟩, others⟩ := List.forall_mem_cons.mp whole
      have first : splitLine? (lineBytes (line :: lines) ++ 13 :: 10 :: body) =
          some (line, lineBytes lines ++ 13 :: 10 :: body) := by
        rw [← splitLine?_append one]
        simp [lineBytes]
      rw [splitHead?_of_line present first, ih others]
      rfl

/-! ## Headers -/

/-- A header that can be told from the line that it is written in. -/
structure Sendable (header : String × Bytes) : Prop where
  present : header.1 ≠ ""
  short : header.1.length ≤ greatestName
  token : ∀ char ∈ header.1.toList, isTokenChar char = true
  lower : Text.lowerCase header.1 = header.1
  value : ∀ byte ∈ header.2, isValueByte byte = true

theorem ascii_of_isTokenChar {char : Char} (token : isTokenChar char = true) :
    char.toNat < 128 := by
  simp only [isTokenChar, Bool.or_eq_true, beq_iff_eq] at token
  rcases token with (letterOrDigit | listed) | mark
  · exact Text.ascii_of_isAlphanum letterOrDigit
  · have all : "!#$%&'*+-.^_|~".toList.all (decide <| ·.toNat < 128) = true := by decide
    exact of_decide_eq_true (List.all_eq_true.mp all char (List.contains_iff_mem.mp listed))
  · omega

private theorem mem_of_mem_trimBytes {bytes : Bytes} {byte : UInt8}
    (member : byte ∈ trimBytes bytes) :
    byte ∈ bytes := by
  rw [trimBytes, List.mem_reverse] at member
  have member := (List.dropWhile_suffix _).mem member
  rw [List.mem_reverse] at member
  exact (List.dropWhile_suffix _).mem member

def headerLine (header : String × Bytes) : Bytes :=
  utf8 header.1 ++ 58 :: 32 :: header.2

/-- A byte of a token: neither a colon nor the end of a line. -/
theorem byte_of_isTokenChar {char : Char} (token : isTokenChar char = true) :
    char.toUInt8 ≠ 58 ∧ char.toUInt8 ≠ 10 ∧ char.toUInt8 ≠ 13 := by
  have checked := Text.ascii_all (fun char => !isTokenChar char ||
    (char.toUInt8 != 58 && char.toUInt8 != 10 && char.toUInt8 != 13)) (by decide)
    (ascii_of_isTokenChar token)
  simpa [token, and_assoc] using checked

private theorem readHeader?_headerLine {header : String × Bytes} (sendable : Sendable header) :
    readHeader? (headerLine header) = some (header.1, trimBytes header.2) := by
  obtain ⟨present, short, token, lower, value⟩ := sendable
  have ascii : ∀ char ∈ header.1.toList, char.toNat < 128 :=
    fun char member => ascii_of_isTokenChar (token char member)
  have name := utf8_of_ascii ascii
  have noColon : ∀ byte ∈ header.1.toList.map Char.toUInt8, (byte != 58) = true := by
    intro byte member
    obtain ⟨char, found, rfl⟩ := List.mem_map.mp member
    simpa using (byte_of_isTokenChar (token char found)).1
  have chars : (header.1.toList.map Char.toUInt8).map (fun byte => Char.ofNat byte.toNat) =
      header.1.toList := by
    rw [List.map_map]
    refine Eq.trans (List.map_congr_left fun char member => ?_) (List.map_id _)
    exact Text.ofNat_toUInt8 (ascii char member)
  have trimmed : trimBytes (32 :: header.2) = trimBytes header.2 := rfl
  have valid : (trimBytes header.2).all isValueByte = true :=
    List.all_eq_true.mpr fun byte member => value byte (mem_of_mem_trimBytes member)
  rw [readHeader?, headerLine, name, List.takeWhile_append_of_pos noColon,
    List.dropWhile_append_of_pos noColon]
  simp only [List.takeWhile_cons, List.dropWhile_cons]
  simp [chars, trimmed, valid, lower, present, String.length_toList]
  exact ⟨short, token⟩

private theorem oneLine_headerLine {header : String × Bytes} (sendable : Sendable header) :
    headerLine header ≠ [] ∧ OneLine (headerLine header) := by
  constructor
  · simp [headerLine]
  · apply oneLine_of_all
    intro byte member
    rcases List.mem_append.mp member with member | member
    · rw [utf8_of_ascii fun char found => ascii_of_isTokenChar (sendable.token char found)]
        at member
      obtain ⟨char, found, rfl⟩ := List.mem_map.mp member
      exact (byte_of_isTokenChar (sendable.token char found)).2
    · rcases List.mem_cons.mp member with rfl | member
      · decide
      · rcases List.mem_cons.mp member with rfl | member
        · decide
        · have valid := sendable.value byte member
          constructor
          · rintro rfl
            exact absurd valid (by decide)
          · rintro rfl
            exact absurd valid (by decide)

def trimmed (header : String × Bytes) : String × Bytes :=
  (header.1, trimBytes header.2)

private theorem mapM_readHeader? {headers : Headers}
    (sendable : ∀ header ∈ headers, Sendable header) :
    (headers.map headerLine).mapM readHeader? = some (headers.map trimmed) := by
  induction headers with
  | nil => rfl
  | cons header headers ih =>
      obtain ⟨first, others⟩ := List.forall_mem_cons.mp sendable
      rw [List.map_cons, List.mapM_cons, readHeader?_headerLine first, ih others]
      rfl

/-- A head is read back from its words and lines, whatever follows it. -/
theorem readInbound?_lineBytes {method target : String} {headers : Headers}
    (methodVisible : ∀ char ∈ method.toList, isVisible char = true)
    (targetVisible : ∀ char ∈ target.toList, isVisible char = true)
    (sendable : ∀ header ∈ headers, Sendable header) (behind : Bytes) :
    readInbound? (lineBytes (requestLine method target :: headers.map headerLine) ++
        13 :: 10 :: behind) =
      some (⟨utf8 method, utf8 target, headers.map trimmed⟩, behind) := by
  have whole : ∀ line ∈ requestLine method target :: headers.map headerLine,
      line ≠ [] ∧ OneLine line := by
    refine List.forall_mem_cons.mpr ⟨oneLine_requestLine methodVisible targetVisible, ?_⟩
    intro line member
    obtain ⟨header, found, rfl⟩ := List.mem_map.mp member
    exact oneLine_headerLine (sendable header found)
  simp only [readInbound?, splitHead?_lineBytes whole, Option.bind_eq_bind, Option.bind_some,
    List.head?_cons, List.tail_cons, readRequestLine?_requestLine methodVisible targetVisible,
    mapM_readHeader? sendable]

end DocumentClient.Wire
