import DocumentClient.Proofs.Url.Address
import DocumentClient.Proofs.Wire.Inbound

/-!
# Bodies as a server reads them

Where the body behind a head ends is said by the head: behind the last chunk, behind as many bytes
as are declared, or at once. What is left over would be read as the next request.
-/

set_option autoImplicit false

namespace DocumentClient.Wire

/-- What stands behind the lines up to the first empty one. -/
def splitTrailer? (bytes : Bytes) : Option Bytes :=
  match _split : splitFullLine? bytes with
  | none => none
  | some ([], behind) => some behind
  | some (_ :: _, behind) => splitTrailer? behind
termination_by bytes.length
decreasing_by exact length_lt_of_splitFullLine? _split

/-- The bytes of all chunks up to the empty one, and what stands behind them. -/
def splitChunks? (bytes : Bytes) : Option (Bytes × Bytes) :=
  match _size : splitFullLine? bytes with
  | none => none
  | some (line, behind) =>
    match chunkSize? line with
    | none => none
    | some (size, _) =>
      if size = 0 then (splitTrailer? behind).map fun rest => ([], rest)
      else
        match _ending : splitFullLine? (behind.drop size) with
        | some ([], more) =>
          (splitChunks? more).map fun (body, rest) => (behind.take size ++ body, rest)
        | _ => none
termination_by bytes.length
decreasing_by
  have := length_lt_of_splitFullLine? _size
  have := length_lt_of_splitFullLine? _ending
  rw [List.length_drop] at this
  omega

/-- The body of a request behind its head, and what stands behind the body. A transfer coding
decides before a length does, and a request without either has no body. -/
def splitBody? (headers : Headers) (bytes : Bytes) : Option (Bytes × Bytes) :=
  if !(valuesOf "transfer-encoding" headers).isEmpty then
    if endsInChunks headers then splitChunks? bytes else none
  else if (valuesOf "content-length" headers).isEmpty then some ([], bytes)
  else do
    let length ← declaredLength? headers
    if length ≤ bytes.length then some (bytes.take length, bytes.drop length) else none

/-! ## Numerals -/

private theorem foldl_toDigits {base : Nat} (positional : 1 < base) (value : Char → Nat)
    (reads : ∀ digit < base, value digit.digitChar = digit) (n : Nat) :
    (Nat.toDigits base n).foldl (fun total char => total * base + value char) 0 = n := by
  induction n using Nat.strongRecOn with
  | ind n ih =>
      by_cases single : n < base
      · rw [Nat.toDigits_of_lt_base single]
        simp [reads n single]
      · have wide : base ≤ n := Nat.le_of_not_lt single
        have smaller : n / base < n := Nat.div_lt_self (by omega) positional
        rw [Nat.toDigits_of_base_le positional wide, List.foldl_append, ih (n / base) smaller]
        simp only [List.foldl_cons, List.foldl_nil]
        rw [reads (n % base) (Nat.mod_lt n (by omega)), Nat.div_add_mod']

private theorem utf8_toString (n : Nat) : utf8 (toString n)
    = (Nat.toDigits 10 n).map Char.toUInt8 := by
  have digits : (toString n).toList = Nat.toDigits 10 n := String.toList_ofList
  have ascii : ∀ char ∈ (toString n).toList, char.toNat < 128 := by
    intro char member
    rw [digits] at member
    obtain ⟨digit, small, rfl⟩ := Url.mem_toDigits (by decide) member
    exact (by decide : ∀ digit < 10, (Nat.digitChar digit).toNat < 128) digit small
  rw [utf8_of_ascii ascii, digits]

theorem digit_of_mem_utf8_toString {n : Nat} {byte : UInt8} (member : byte ∈ utf8 (toString n)) :
    48 ≤ byte ∧ byte ≤ 57 := by
  rw [utf8_toString] at member
  obtain ⟨char, found, rfl⟩ := List.mem_map.mp member
  obtain ⟨digit, small, rfl⟩ := Url.mem_toDigits (by decide) found
  exact (by decide : ∀ digit < 10, 48 ≤ (Nat.digitChar digit).toUInt8 ∧
    (Nat.digitChar digit).toUInt8 ≤ 57) digit small

private theorem digitsValue?_toString {n : Nat} (small : n < Nat.pow 2 64) :
    digitsValue? (utf8 (toString n)) = some n := by
  have digits : (utf8 (toString n)).all (fun byte => 48 ≤ byte && byte ≤ 57) = true := by
    rw [List.all_eq_true]
    intro byte member
    simpa using digit_of_mem_utf8_toString member
  have value : (utf8 (toString n)).foldl (fun value byte => value * 10 + (byte.toNat - 48)) 0 =
      n := by
    rw [utf8_toString, List.foldl_map]
    exact foldl_toDigits (by decide) (fun char => char.toUInt8.toNat - 48) (by decide) n
  have present : (utf8 (toString n)).isEmpty = false := by
    rw [utf8_toString, List.isEmpty_map, List.isEmpty_eq_false_iff]
    exact Nat.toDigits_ne_nil
  rw [digitsValue?, digits, present, value]
  simp [small]

/-! ## Chunks -/

def sizeLine (size : Nat) : Bytes :=
  utf8 (String.ofList (Nat.toDigits 16 size)).toUpper

private theorem sizeLine_eq (size : Nat) :
    sizeLine size = (Nat.toDigits 16 size).map fun char => char.toUpper.toUInt8 := by
  have upper : (String.ofList (Nat.toDigits 16 size)).toUpper.toList =
      (Nat.toDigits 16 size).map Char.toUpper := by
    simp [String.toUpper]
  have ascii : ∀ char ∈ (String.ofList (Nat.toDigits 16 size)).toUpper.toList,
      char.toNat < 128 := by
    intro char member
    rw [upper] at member
    obtain ⟨char, found, rfl⟩ := List.mem_map.mp member
    obtain ⟨digit, small, rfl⟩ := Url.mem_toDigits (by decide) found
    exact (by decide : ∀ digit < 16, (Nat.digitChar digit).toUpper.toNat < 128) digit small
  rw [sizeLine, utf8_of_ascii ascii, upper, List.map_map]
  rfl

def hexNumber (char : Char) : Nat :=
  (Percent.hexValue? char.toUpper.toUInt8).getD 0

private theorem hexValue?_of_mem_toDigits {size : Nat} {char : Char}
    (member : char ∈ Nat.toDigits 16 size) :
    Percent.hexValue? char.toUpper.toUInt8 = some (hexNumber char) := by
  obtain ⟨digit, small, rfl⟩ := Url.mem_toDigits (by decide) member
  exact (by decide : ∀ digit < 16, Percent.hexValue? (Nat.digitChar digit).toUpper.toUInt8 =
    some (hexNumber (Nat.digitChar digit))) digit small

private theorem mapM_hexValue? {chars : List Char} (digits : ∀ char ∈ chars,
    Percent.hexValue? char.toUpper.toUInt8 = some (hexNumber char)) :
    (chars.map fun char => char.toUpper.toUInt8).mapM Percent.hexValue? =
      some (chars.map hexNumber) := by
  induction chars with
  | nil => rfl
  | cons char chars ih =>
      obtain ⟨first, others⟩ := List.forall_mem_cons.mp digits
      rw [List.map_cons, List.mapM_cons, first, ih others]
      rfl

private theorem isHexDigit_of_mem_sizeLine {size : Nat} {byte : UInt8}
    (member : byte ∈ sizeLine size) :
    (Percent.hexValue? byte).isSome = true := by
  rw [sizeLine_eq] at member
  obtain ⟨char, found, rfl⟩ := List.mem_map.mp member
  rw [hexValue?_of_mem_toDigits found]
  rfl

private theorem chunkSize?_sizeLine {size : Nat} (small : size < Nat.pow 2 64) :
    chunkSize? (sizeLine size) = some (size, 0) := by
  have digits : ∀ byte ∈ sizeLine size, (Percent.hexValue? byte).isSome = true :=
    fun byte member => isHexDigit_of_mem_sizeLine member
  have taken : (sizeLine size).takeWhile (fun byte => (Percent.hexValue? byte).isSome) =
      sizeLine size :=
    List.takeWhile_eq_self_iff.mpr digits
  have dropped : (sizeLine size).dropWhile (fun byte => (Percent.hexValue? byte).isSome) = [] :=
    List.dropWhile_eq_nil_iff.mpr digits
  have values : (sizeLine size).mapM Percent.hexValue? =
      some ((Nat.toDigits 16 size).map hexNumber) := by
    rw [sizeLine_eq]
    exact mapM_hexValue? fun char member => hexValue?_of_mem_toDigits member
  have value : ((Nat.toDigits 16 size).map hexNumber).foldl
      (fun value digit => value * 16 + digit) 0 = size := by
    rw [List.foldl_map]
    exact foldl_toDigits (by decide) hexNumber (by decide) size
  have present : Nat.toDigits 16 size ≠ [] := Nat.toDigits_ne_nil
  simp only [chunkSize?, taken, dropped, values, Option.bind_eq_bind, Option.bind_some, value]
  simp [present, small]

private theorem splitFullLine?_append {line : Bytes} (noReturn : 13 ∉ line) (rest : Bytes) :
    splitFullLine? (line ++ 13 :: 10 :: rest) = some (line, rest) := by
  induction line with
  | nil => rfl
  | cons byte line ih =>
      have different : byte ≠ 13 := fun same => noReturn (same ▸ List.mem_cons_self)
      have read := ih fun member => noReturn (List.mem_cons_of_mem _ member)
      rw [List.cons_append, splitFullLine?, read]
      · rfl
      · intro _ same
        exact absurd same different
      · exact different

private theorem splitTrailer?_lineEnd (rest : Bytes) : splitTrailer? (13 :: 10 :: rest)
    = some rest := by
  rw [splitTrailer?]
  split <;> simp_all [splitFullLine?]

section

variable {bytes line behind more : Bytes} {size extension : Nat}

private theorem splitChunks?_of_end (found : splitFullLine? bytes = some (line, behind))
    (sized : chunkSize? line = some (0, extension)) :
    splitChunks? bytes = (splitTrailer? behind).map fun rest => ([], rest) := by
  rw [splitChunks?]
  split <;> simp_all

private theorem splitChunks?_of_chunk (found : splitFullLine? bytes = some (line, behind))
    (sized : chunkSize? line = some (size, extension)) (positive : size ≠ 0)
    (ending : splitFullLine? (behind.drop size) = some ([], more)) :
    splitChunks? bytes =
      (splitChunks? more).map fun (body, rest) => (behind.take size ++ body, rest) := by
  rw [splitChunks?]
  split
  · simp_all
  · rename_i other rest same
    obtain ⟨rfl, rfl⟩ := Prod.mk.inj (Option.some.inj (found.symm.trans same))
    simp only [sized, if_neg positive]
    split <;> simp_all

end

/-- A body in one chunk is read back, whatever follows it. -/
theorem splitChunks?_chunkBytes {body : Bytes} (present : body ≠ [])
    (small : body.length < Nat.pow 2 64) (rest : Bytes) :
    splitChunks? (sizeLine body.length ++ 13 :: 10 ::
      (body ++ 13 :: 10 :: 48 :: 13 :: 10 :: 13 :: 10 :: rest)) = some (body, rest) := by
  have noReturn : (13 : UInt8) ∉ sizeLine body.length := by
    intro member
    exact absurd (isHexDigit_of_mem_sizeLine member) (by decide)
  have positive : body.length ≠ 0 := fun none => present (List.length_eq_zero_iff.mp none)
  -- the chunk without content, and no trailer behind it
  have last : splitChunks? (48 :: 13 :: 10 :: 13 :: 10 :: rest) = some ([], rest) := by
    have found : splitFullLine? ([48] ++ 13 :: 10 :: 13 :: 10 :: rest) =
        some ([48], 13 :: 10 :: rest) :=
      splitFullLine?_append (by decide) (13 :: 10 :: rest)
    have empty : chunkSize? [48] = some (0, 0) := by decide
    refine (splitChunks?_of_end found empty).trans ?_
    rw [splitTrailer?_lineEnd]
    rfl
  rw [splitChunks?_of_chunk (splitFullLine?_append noReturn _) (chunkSize?_sizeLine small) positive
    (by rw [List.drop_left]; rfl), last]
  simp

/-! ## Blanks around values -/

private theorem exists_trimBytes (value : Bytes) :
    ∃ before after, value = before ++ trimBytes value ++ after ∧
      (∀ byte ∈ before, isBlankByte byte = true) ∧ ∀ byte ∈ after, isBlankByte byte = true := by
  refine ⟨value.takeWhile isBlankByte,
    ((value.dropWhile isBlankByte).reverse.takeWhile isBlankByte).reverse, ?_, ?_, ?_⟩
  · rw [trimBytes, List.append_assoc, ← List.reverse_append, List.takeWhile_append_dropWhile,
      List.reverse_reverse, List.takeWhile_append_dropWhile]
  · exact fun byte member => List.mem_takeWhile_imp member
  · exact fun byte member => List.mem_takeWhile_imp (List.mem_reverse.mp member)

section

variable {blanks : Bytes} (blank : ∀ byte ∈ blanks, isBlankByte byte = true) (value : Bytes)
include blank

private theorem trimBytes_blanks_append : trimBytes (blanks ++ value) = trimBytes value := by
  rw [trimBytes, List.dropWhile_append_of_pos blank, trimBytes]

private theorem trimBytes_append_blanks : trimBytes (value ++ blanks) = trimBytes value := by
  have none : blanks.dropWhile isBlankByte = [] := List.dropWhile_eq_nil_iff.mpr blank
  have reversed : ∀ byte ∈ blanks.reverse, isBlankByte byte = true :=
    fun byte member => blank byte (List.mem_reverse.mp member)
  rw [trimBytes, trimBytes, List.dropWhile_append]
  split
  · rename_i empty
    rw [none, List.isEmpty_iff.mp empty]
  · rw [List.reverse_append, List.dropWhile_append_of_pos reversed]

private theorem comma_not_mem_blanks : 44 ∉ blanks := by
  intro member
  exact absurd (blank 44 member) (by decide)

end

theorem splitBytes_ne_nil (separator : UInt8) (bytes : Bytes) :
    splitBytes separator bytes ≠ [] := by
  cases bytes with
  | nil => simp [splitBytes]
  | cons byte bytes =>
      rw [splitBytes]
      split
      · simp
      · split <;> simp

theorem splitBytes_cons_of_ne {separator byte : UInt8} (different : byte ≠ separator)
    {bytes piece : Bytes} {others : List Bytes}
    (split : splitBytes separator bytes = piece :: others) :
    splitBytes separator (byte :: bytes) = (byte :: piece) :: others := by
  rw [splitBytes, if_neg different, split]

/-- What stands behind everything belongs to the last piece. -/
theorem splitBytes_append_last {separator : UInt8} {ending : Bytes} (absent : separator ∉ ending)
    (bytes : Bytes) : ∃ init last, splitBytes separator bytes = init ++ [last] ∧
      splitBytes separator (bytes ++ ending) = init ++ [last ++ ending] := by
  induction bytes with
  | nil => exact ⟨[], [], rfl, splitBytes_of_not_mem absent⟩
  | cons byte bytes ih =>
      obtain ⟨init, last, split, whole⟩ := ih
      by_cases same : byte = separator
      · refine ⟨[] :: init, last, ?_, ?_⟩
        · rw [splitBytes, if_pos same, split]
          rfl
        · rw [List.cons_append, splitBytes, if_pos same, whole]
          rfl
      · cases init with
        | nil =>
            exact ⟨[], byte :: last, splitBytes_cons_of_ne same split,
              splitBytes_cons_of_ne same whole⟩
        | cons piece init =>
            exact ⟨(byte :: piece) :: init, last, splitBytes_cons_of_ne same split,
              splitBytes_cons_of_ne same whole⟩

/-- The pieces of a value, each without the blanks around it. -/
def pieces (value : Bytes) : List Bytes :=
  (splitBytes 44 value).map trimBytes

private theorem pieces_blanks_append {blanks : Bytes}
    (blank : ∀ byte ∈ blanks, isBlankByte byte = true)
    (value : Bytes) : pieces (blanks ++ value) = pieces value := by
  induction blanks with
  | nil => rfl
  | cons byte blanks ih =>
      obtain ⟨first, others⟩ := List.forall_mem_cons.mp blank
      have comma : byte ≠ 44 := by
        rintro rfl
        exact absurd first (by decide)
      obtain ⟨piece, more, split⟩ :=
        List.exists_cons_of_ne_nil (splitBytes_ne_nil 44 (blanks ++ value))
      have trims : trimBytes (byte :: piece) = trimBytes piece :=
        trimBytes_blanks_append (by simpa using first : ∀ other ∈ [byte], _) piece
      rw [← ih others, pieces, pieces, List.cons_append, splitBytes_cons_of_ne comma split, split,
        List.map_cons, List.map_cons, trims]

private theorem pieces_append_blanks {blanks : Bytes}
    (blank : ∀ byte ∈ blanks, isBlankByte byte = true)
    (value : Bytes) : pieces (value ++ blanks) = pieces value := by
  obtain ⟨init, last, split, whole⟩ := splitBytes_append_last (comma_not_mem_blanks blank) value
  rw [pieces, pieces, split, whole, List.map_append, List.map_append, List.map_singleton,
    List.map_singleton, trimBytes_append_blanks blank]

private theorem pieces_trimBytes (value : Bytes) : pieces (trimBytes value) = pieces value := by
  obtain ⟨before, after, whole, left, right⟩ := exists_trimBytes value
  calc pieces (trimBytes value)
      = pieces (before ++ trimBytes value) := (pieces_blanks_append left _).symm
    _ = pieces (before ++ trimBytes value ++ after) := (pieces_append_blanks right _).symm
    _ = pieces value := by rw [← whole]

/-! ## Framing headers -/

theorem valuesOf_trimmed (name : String) (headers : Headers) :
    valuesOf name (headers.map trimmed) = (valuesOf name headers).map trimBytes := by
  rw [valuesOf, valuesOf, List.filter_map, List.map_map, List.map_map]
  rfl

/-- The length that some numerals agree on. -/
def agreed? (numerals : List Bytes) : Option Nat := do
  let lengths ← numerals.mapM digitsValue?
  let length ← lengths.head?
  if lengths.all (· == length) then some length else none

private theorem agreed?_singleton {numeral : Bytes} {length : Nat}
    (read : digitsValue? numeral = some length) : agreed? [numeral] = some length := by
  simp [agreed?, read]

theorem declaredLength?_eq (headers : Headers) :
    declaredLength? headers = agreed? ((valuesOf "content-length" headers).flatMap pieces) := by
  have numerals : (valuesOf "content-length" headers).flatMap pieces =
      ((valuesOf "content-length" headers).flatMap (splitBytes 44)).map trimBytes := by
    rw [List.map_flatMap]
    rfl
  rw [agreed?, numerals, List.mapM_map]
  rfl

theorem trimBytes_of_solid {bytes : Bytes} (solid : ∀ byte ∈ bytes, isBlankByte byte = false) :
    trimBytes bytes = bytes := by
  have keeps {bytes : Bytes} (solid : ∀ byte ∈ bytes, isBlankByte byte = false) :
      bytes.dropWhile isBlankByte = bytes := by
    cases bytes with
    | nil => rfl
    | cons byte bytes => simp [solid byte List.mem_cons_self]
  rw [trimBytes, keeps solid, keeps fun byte member => solid byte (List.mem_reverse.mp member),
    List.reverse_reverse]

theorem declaredLength?_of_toString {headers : Headers} {n : Nat} (small : n < Nat.pow 2 64)
    (only : valuesOf "content-length" headers = [utf8 (toString n)]) :
    declaredLength? headers = some n := by
  have solid : ∀ byte ∈ utf8 (toString n), isBlankByte byte = false := by
    intro byte member
    obtain ⟨lower, _⟩ := digit_of_mem_utf8_toString member
    rw [isBlankByte, Bool.or_eq_false_iff, beq_eq_false_iff_ne, beq_eq_false_iff_ne]
    constructor
    · rintro rfl
      exact absurd lower (by decide)
    · rintro rfl
      exact absurd lower (by decide)
  have noComma : 44 ∉ utf8 (toString n) := by
    intro member
    exact absurd (digit_of_mem_utf8_toString member).1 (by decide)
  have single : [utf8 (toString n)].flatMap pieces = [utf8 (toString n)] := by
    rw [List.flatMap_singleton, pieces, splitBytes_of_not_mem noComma, List.map_singleton,
      trimBytes_of_solid solid]
  rw [declaredLength?_eq, only, single, agreed?_singleton (digitsValue?_toString small)]

theorem declaredLength?_trimmed (headers : Headers) :
    declaredLength? (headers.map trimmed) = declaredLength? headers := by
  have same : pieces ∘ trimBytes = pieces := funext pieces_trimBytes
  rw [declaredLength?_eq, declaredLength?_eq, valuesOf_trimmed, List.flatMap_map]
  exact congrArg (fun pieces => agreed? ((valuesOf "content-length" headers).flatMap pieces)) same

theorem all_isTextByte_trimBytes (value : Bytes) :
    (trimBytes value).all isTextByte = value.all isTextByte := by
  obtain ⟨before, after, whole, left, right⟩ := exists_trimBytes value
  have text {bytes : Bytes} (blank : ∀ byte ∈ bytes, isBlankByte byte = true) :
      bytes.all isTextByte = true := by
    rw [List.all_eq_true]
    intro byte member
    have found := blank byte member
    simp only [isBlankByte, Bool.or_eq_true, beq_iff_eq] at found
    rcases found with rfl | rfl <;> decide
  conv_rhs => rw [whole]
  simp [text left, text right]

/-- Whether a value is a text whose last coding is the one in chunks. -/
def namesChunks (value : Bytes) : Bool :=
  value.all isTextByte &&
    (((pieces value).getLast?.getD []).map fun byte => (Char.ofNat byte.toNat).toLower) ==
      "chunked".toList

theorem endsInChunks_eq (headers : Headers) :
    endsInChunks headers = (valuesOf "transfer-encoding" headers).getLast?.any namesChunks := by
  rw [endsInChunks]
  cases (valuesOf "transfer-encoding" headers).getLast? with
  | none => rfl
  | some value => simp [namesChunks, pieces]

private theorem endsInChunks_trimmed (headers : Headers) :
    endsInChunks (headers.map trimmed) = endsInChunks headers := by
  rw [endsInChunks_eq, endsInChunks_eq, valuesOf_trimmed, List.getLast?_map]
  cases (valuesOf "transfer-encoding" headers).getLast? with
  | none => rfl
  | some value =>
      simp only [Option.map_some, Option.any_some, namesChunks, pieces_trimBytes,
        all_isTextByte_trimBytes]

/-- Blanks around values do not change where a body ends. -/
theorem splitBody?_trimmed (headers : Headers) (bytes : Bytes) :
    splitBody? (headers.map trimmed) bytes = splitBody? headers bytes := by
  simp only [splitBody?, valuesOf_trimmed, List.isEmpty_map, endsInChunks_trimmed,
    declaredLength?_trimmed]

end DocumentClient.Wire
