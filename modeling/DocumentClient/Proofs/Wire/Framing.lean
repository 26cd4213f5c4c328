import DocumentClient.Proofs.Wire.Body
import DocumentClient.Wire.Message

/-!
# The framing of messages

What the framing headers of a message make of its body. Without any, and in chunks, the body is read
back whole; a length that a caller declares for it is believed.
-/

set_option autoImplicit false

namespace DocumentClient.Wire

/-- A header that says where the body ends. -/
def isFraming (header : String × Bytes) : Bool :=
  header.1 == "content-length" || header.1 == "transfer-encoding"

/-! ## Values by name -/

section

variable {name other : String} {headers first second : Headers}

private theorem valuesOf_append :
    valuesOf name (first ++ second) = valuesOf name first ++ valuesOf name second := by
  simp [valuesOf]

private theorem valuesOf_singleton_of_ne (different : other ≠ name) (value : Bytes) :
    valuesOf name [(other, value)] = [] := by
  simp [valuesOf, different]

private theorem valuesOf_without_of_ne (different : name ≠ other) :
    valuesOf name (headers.filter (·.1 != other)) = valuesOf name headers := by
  have same : headers.filter (fun header => header.1 == name && header.1 != other) =
      headers.filter (·.1 == name) := by
    refine List.filter_congr fun header _ => ?_
    by_cases found : header.1 = name
    · simp [found, different]
    · simp [found]
  rw [valuesOf, valuesOf, List.filter_filter, same]

private theorem valuesOf_without_self : valuesOf name (headers.filter (·.1 != name)) = [] := by
  rw [valuesOf, List.map_eq_nil_iff, List.filter_eq_nil_iff]
  intro header member
  have different := (List.mem_filter.mp member).2
  simpa using different

/-- Where a body ends depends on the framing headers only. -/
theorem splitBody?_congr (codings : valuesOf "transfer-encoding" first =
      valuesOf "transfer-encoding" second)
    (lengths : valuesOf "content-length" first = valuesOf "content-length" second)
    (bytes : Bytes) : splitBody? first bytes = splitBody? second bytes := by
  have declared : declaredLength? first = declaredLength? second := by
    rw [declaredLength?_eq, declaredLength?_eq, lengths]
  have chunks : endsInChunks first = endsInChunks second := by
    rw [endsInChunks_eq, endsInChunks_eq, codings]
  rw [splitBody?, splitBody?, codings, lengths, declared, chunks]

private theorem declaredLength?_of_absent (absent : valuesOf "content-length" headers = []) :
    declaredLength? headers = none := by
  rw [declaredLength?_eq, absent]
  rfl

theorem present_of_declared {length : Nat} (declared : declaredLength? headers = some length) :
    valuesOf "content-length" headers ≠ [] := by
  intro absent
  rw [declaredLength?_of_absent absent] at declared
  cases declared

private theorem splitBody?_of_absent (uncoded : valuesOf "transfer-encoding" headers = [])
    (absent : valuesOf "content-length" headers = []) (bytes : Bytes) :
    splitBody? headers bytes = some ([], bytes) := by
  simp [splitBody?, uncoded, absent]

private theorem splitBody?_of_declared (uncoded : valuesOf "transfer-encoding" headers = [])
    {length : Nat} (declared : declaredLength? headers = some length) (bytes : Bytes) :
    splitBody? headers bytes =
      if length ≤ bytes.length then some (bytes.take length, bytes.drop length) else none := by
  simp [splitBody?, uncoded, present_of_declared declared, declared]

private theorem splitBody?_of_undeclared (uncoded : valuesOf "transfer-encoding" headers = [])
    (present : valuesOf "content-length" headers ≠ []) (undeclared : declaredLength? headers = none)
    (bytes : Bytes) : splitBody? headers bytes = none := by
  simp [splitBody?, uncoded, present, undeclared]

private theorem splitBody?_of_coded {value : Bytes}
    (last : (valuesOf "transfer-encoding" headers).getLast? = some value) (bytes : Bytes) :
    splitBody? headers bytes = if namesChunks value then splitChunks? bytes else none := by
  have coded : valuesOf "transfer-encoding" headers ≠ [] :=
    List.ne_nil_of_mem (List.mem_of_getLast? last)
  simp [splitBody?, coded, endsInChunks_eq, last]

end

/-! ## The last transfer coding -/

private theorem splitBytes_append_cons (separator : UInt8) (bytes rest : Bytes) :
    splitBytes separator (bytes ++ separator :: rest) =
      splitBytes separator bytes ++ splitBytes separator rest := by
  induction bytes with
  | nil => simp [splitBytes]
  | cons byte bytes ih =>
      by_cases same : byte = separator
      · rw [List.cons_append, splitBytes, if_pos same, ih, splitBytes, if_pos same]
        rfl
      · obtain ⟨piece, others, split⟩ :=
          List.exists_cons_of_ne_nil (splitBytes_ne_nil separator bytes)
        rw [split] at ih
        rw [List.cons_append, splitBytes_cons_of_ne same ih, splitBytes_cons_of_ne same split]
        rfl

private theorem namesChunks_append (value : Bytes) :
    namesChunks (value ++ utf8 ", chunked") = value.all isTextByte := by
  have words : utf8 ", chunked" = 44 :: utf8 " chunked" := by decide
  have last : splitBytes 44 (utf8 " chunked") = [utf8 " chunked"] :=
    splitBytes_of_not_mem (by decide)
  have spelled : (utf8 ", chunked").all isTextByte = true := by decide
  have coding : (trimBytes (utf8 " chunked")).map
      (fun byte => (Char.ofNat byte.toNat).toLower) = "chunked".toList := by
    decide
  rw [namesChunks, pieces, List.all_append, spelled, words, splitBytes_append_cons, last]
  simp [coding]

/-- One step of the change, from the end of the headers on. -/
def chunkStep (header : String × Bytes) (state : Headers × Bool) : Headers × Bool :=
  if header.1 == "transfer-encoding" && !state.2 then
    ((header.1, header.2 ++ utf8 ", chunked") :: state.1, true)
  else (header :: state.1, state.2)

private theorem addChunks_eq (headers : Headers) :
    Message.addChunks headers = (headers.foldr chunkStep ([], false)).1 := by
  rw [Message.addChunks, List.foldl_reverse]
  rfl

private theorem foldr_chunkStep_of_absent {headers : Headers}
    (absent : valuesOf "transfer-encoding" headers = []) :
    headers.foldr chunkStep ([], false) = (headers, false) := by
  induction headers with
  | nil => rfl
  | cons header headers ih =>
      by_cases coding : header.1 = "transfer-encoding"
      · simp [valuesOf, coding] at absent
      · have others : valuesOf "transfer-encoding" headers = [] := by
          simpa [valuesOf, coding] using absent
        rw [List.foldr_cons, ih others, chunkStep]
        simp [coding]

private theorem foldr_chunkStep_of_found (headers done : Headers) :
    headers.foldr chunkStep (done, true) = (headers ++ done, true) := by
  induction headers with
  | nil => rfl
  | cons header headers ih =>
      rw [List.foldr_cons, ih, chunkStep]
      simp

private theorem addChunks_append {before after : Headers} (value : Bytes)
    (last : valuesOf "transfer-encoding" after = []) :
    Message.addChunks (before ++ ("transfer-encoding", value) :: after) =
      before ++ ("transfer-encoding", value ++ utf8 ", chunked") :: after := by
  have changed : chunkStep ("transfer-encoding", value) (after, false) =
      (("transfer-encoding", value ++ utf8 ", chunked") :: after, true) := rfl
  rw [addChunks_eq, List.foldr_append, List.foldr_cons, foldr_chunkStep_of_absent last, changed,
    foldr_chunkStep_of_found]

private theorem exists_last_coding {headers : Headers}
    (coded : valuesOf "transfer-encoding" headers ≠ []) :
    ∃ before value after, headers = before ++ ("transfer-encoding", value) :: after ∧
      valuesOf "transfer-encoding" after = [] := by
  induction headers with
  | nil => exact absurd rfl coded
  | cons header headers ih =>
      by_cases later : valuesOf "transfer-encoding" headers = []
      · obtain ⟨name, value⟩ := header
        have own : name = "transfer-encoding" := by
          by_contra other
          exact coded (by simpa [valuesOf, other] using later)
        subst own
        exact ⟨[], value, headers, rfl, later⟩
      · obtain ⟨before, value, after, rfl, last⟩ := ih later
        exact ⟨header :: before, value, after, rfl, last⟩

private theorem getLast?_valuesOf {before after : Headers} (value : Bytes)
    (last : valuesOf "transfer-encoding" after = []) :
    (valuesOf "transfer-encoding" (before ++ ("transfer-encoding", value) :: after)).getLast? =
      some value := by
  have own : valuesOf "transfer-encoding" (("transfer-encoding", value) :: after) = [value] := by
    change valuesOf "transfer-encoding" ([("transfer-encoding", value)] ++ after) = _
    rw [valuesOf_append, last]
    rfl
  rw [valuesOf_append, own]
  simp

/-! ## Framing -/

namespace Message

variable {message : Message} {name : String}

private theorem valuesOf_withHost (different : name ≠ "host") :
    valuesOf name message.withHost = valuesOf name message.headers := by
  rw [withHost]
  split
  · rw [valuesOf_append, valuesOf_singleton_of_ne different.symm, List.append_nil]
  · rfl

private theorem declaredLength?_withHost :
    declaredLength? message.withHost = declaredLength? message.headers := by
  rw [declaredLength?_eq, declaredLength?_eq, valuesOf_withHost (by decide)]

private theorem framing_of_empty (empty : message.body = []) :
    message.framing = (message.withHost.filter (·.1 != "transfer-encoding"), .length 0) := by
  rw [framing, empty]
  rfl

def codedHeaders (message : Message) : Headers :=
  let headers :=
    if endsInChunks message.withHost then message.withHost else addChunks message.withHost
  if (declaredLength? message.withHost).isSome then headers.filter (·.1 != "content-length")
  else headers

private theorem framing_of_coded (present : message.body ≠ [])
    (coded : valuesOf "transfer-encoding" message.headers ≠ []) :
    message.framing = (message.codedHeaders, .chunks) := by
  have coded : valuesOf "transfer-encoding" message.withHost ≠ [] := by
    rw [valuesOf_withHost (by decide)]
    exact coded
  simp [framing, present, coded, codedHeaders]

private theorem framing_of_declared (present : message.body ≠ [])
    (uncoded : valuesOf "transfer-encoding" message.headers = []) {length : Nat}
    (declared : declaredLength? message.headers = some length) :
    message.framing = (message.withHost, .length length) := by
  have uncoded : valuesOf "transfer-encoding" message.withHost = [] := by
    rw [valuesOf_withHost (by decide)]
    exact uncoded
  have declared : declaredLength? message.withHost = some length := by
    rw [declaredLength?_withHost]
    exact declared
  simp [framing, present, uncoded, declared]

/-- The length of a body that nothing valid was declared for. -/
def lengthHeader (message : Message) : String × Bytes :=
  ("content-length", utf8 (toString message.body.length))

private theorem framing_of_undeclared (present : message.body ≠ [])
    (uncoded : valuesOf "transfer-encoding" message.headers = [])
    (undeclared : declaredLength? message.headers = none) :
    message.framing = (message.withHost.filter (·.1 != "content-length") ++ [message.lengthHeader],
      .length message.body.length) := by
  have uncoded : valuesOf "transfer-encoding" message.withHost = [] := by
    rw [valuesOf_withHost (by decide)]
    exact uncoded
  have undeclared : declaredLength? message.withHost = none := by
    rw [declaredLength?_withHost]
    exact undeclared
  simp [framing, present, uncoded, undeclared, lengthHeader]

/-! ## Bodies read back -/

def bodyBytes (message : Message) : Bytes :=
  match message.framing.2 with
  | .length announced => message.body.take announced
  | .chunks => chunkBytes message.body

/-- The body as the framing headers of the message itself tell it. -/
def readBack (message : Message) : Option (Bytes × Bytes) :=
  splitBody? message.framing.1 message.bodyBytes

private theorem readBack_of_empty (empty : message.body = []) :
    message.readBack = splitBody? (message.headers.filter (·.1 != "transfer-encoding")) [] := by
  have behind : message.bodyBytes = [] := by
    rw [bodyBytes, framing_of_empty empty]
    rfl
  rw [readBack, behind, framing_of_empty empty]
  refine splitBody?_congr ?_ ?_ []
  · rw [valuesOf_without_self, valuesOf_without_self]
  · rw [valuesOf_without_of_ne (by decide), valuesOf_without_of_ne (by decide),
      valuesOf_withHost (by decide)]

theorem readBack_of_undeclared (present : message.body ≠ [])
    (small : message.body.length < Nat.pow 2 64)
    (uncoded : valuesOf "transfer-encoding" message.headers = [])
    (undeclared : declaredLength? message.headers = none) :
    message.readBack = some (message.body, []) := by
  have framed := framing_of_undeclared present uncoded undeclared
  have behind : message.bodyBytes = message.body := by
    rw [bodyBytes, framed]
    exact List.take_length
  have own : valuesOf "content-length"
      (message.withHost.filter (·.1 != "content-length") ++ [message.lengthHeader]) =
        [utf8 (toString message.body.length)] := by
    rw [valuesOf_append, valuesOf_without_self]
    rfl
  have uncodedNow : valuesOf "transfer-encoding"
      (message.withHost.filter (·.1 != "content-length") ++ [message.lengthHeader]) = [] := by
    rw [valuesOf_append, valuesOf_without_of_ne (by decide), valuesOf_withHost (by decide), uncoded]
    rfl
  rw [readBack, behind, framed, splitBody?_of_declared uncodedNow
    (declaredLength?_of_toString small own), if_pos (Nat.le_refl _), List.take_length,
    List.drop_length]

/-- Whatever length was declared, so much of the body is sent, and it is waited for so much. -/
theorem readBack_of_declared {length : Nat}
    (uncoded : message.body = [] ∨ valuesOf "transfer-encoding" message.headers = [])
    (declared : declaredLength? message.headers = some length) :
    message.readBack =
      if length ≤ message.body.length then some (message.body.take length, []) else none := by
  by_cases empty : message.body = []
  · have declared : declaredLength? (message.headers.filter (·.1 != "transfer-encoding")) =
        some length := by
      rw [← declared, declaredLength?_eq, declaredLength?_eq, valuesOf_without_of_ne (by decide)]
    rw [readBack_of_empty empty, splitBody?_of_declared valuesOf_without_self declared, empty]
    simp
  · have uncoded := uncoded.resolve_left empty
    have framed := framing_of_declared empty uncoded declared
    have behind : message.bodyBytes = message.body.take length := by
      rw [bodyBytes, framed]
    have uncodedNow : valuesOf "transfer-encoding" message.withHost = [] := by
      rw [valuesOf_withHost (by decide)]
      exact uncoded
    have reaches : length ≤ (message.body.take length).length ↔ length ≤ message.body.length := by
      rw [List.length_take]
      omega
    rw [readBack, behind, framed, splitBody?_of_declared uncodedNow
      (declaredLength?_withHost.trans declared)]
    simp only [reaches, List.take_take, Nat.min_self]
    split
    · rw [List.drop_of_length_le (List.length_take_le _ _)]
    · rfl

theorem readBack_of_unframed (small : message.body.length < Nat.pow 2 64)
    (uncoded : message.body = [] ∨ valuesOf "transfer-encoding" message.headers = [])
    (absent : valuesOf "content-length" message.headers = []) :
    message.readBack = some (message.body, []) := by
  by_cases empty : message.body = []
  · have absent : valuesOf "content-length"
        (message.headers.filter (·.1 != "transfer-encoding")) = [] := by
      rw [valuesOf_without_of_ne (by decide), absent]
    rw [readBack_of_empty empty, splitBody?_of_absent valuesOf_without_self absent, empty]
  · exact readBack_of_undeclared empty small (uncoded.resolve_left empty)
      (declaredLength?_of_absent absent)

theorem readBack_of_unreadable (empty : message.body = [])
    (present : valuesOf "content-length" message.headers ≠ [])
    (undeclared : declaredLength? message.headers = none) : message.readBack = none := by
  have same : valuesOf "content-length" (message.headers.filter (·.1 != "transfer-encoding")) =
      valuesOf "content-length" message.headers :=
    valuesOf_without_of_ne (by decide)
  have undeclared : declaredLength? (message.headers.filter (·.1 != "transfer-encoding")) =
      none := by
    rw [← undeclared, declaredLength?_eq, declaredLength?_eq, same]
  rw [readBack_of_empty empty]
  exact splitBody?_of_undeclared valuesOf_without_self (by rwa [same]) undeclared []

/-- The last coding of a body in chunks is the one in chunks if the caller's last one is a text. -/
theorem exists_last_codedHeaders {value : Bytes}
    (last : (valuesOf "transfer-encoding" message.headers).getLast? = some value) :
    ∃ own, (valuesOf "transfer-encoding" message.codedHeaders).getLast? = some own ∧
      namesChunks own = value.all isTextByte := by
  have last : (valuesOf "transfer-encoding" message.withHost).getLast? = some value := by
    rw [valuesOf_withHost (by decide)]
    exact last
  have without (headers : Headers) : valuesOf "transfer-encoding"
      (headers.filter (·.1 != "content-length")) = valuesOf "transfer-encoding" headers :=
    valuesOf_without_of_ne (by decide)
  have codings : valuesOf "transfer-encoding" message.codedHeaders = valuesOf "transfer-encoding"
      (if endsInChunks message.withHost then message.withHost
        else addChunks message.withHost) := by
    rw [codedHeaders]
    split
    · exact without _
    · rfl
  rw [codings]
  split
  · rename_i chunks
    rw [endsInChunks_eq, last, Option.any_some] at chunks
    refine ⟨value, last, chunks.trans ?_⟩
    rw [namesChunks, Bool.and_eq_true] at chunks
    exact chunks.1.symm
  · have coded : valuesOf "transfer-encoding" message.withHost ≠ [] :=
      List.ne_nil_of_mem (List.mem_of_getLast? last)
    obtain ⟨before, own, after, split, lastly⟩ := exists_last_coding coded
    rw [split, getLast?_valuesOf own lastly] at last
    obtain rfl := Option.some.inj last
    rw [split, addChunks_append own lastly]
    exact ⟨_, getLast?_valuesOf _ lastly, namesChunks_append own⟩

/-- In chunks a body is sent whole, whatever length was declared. -/
theorem readBack_of_coded (present : message.body ≠ [])
    (small : message.body.length < Nat.pow 2 64) {value : Bytes}
    (last : (valuesOf "transfer-encoding" message.headers).getLast? = some value) :
    message.readBack = if value.all isTextByte then some (message.body, []) else none := by
  have coded : valuesOf "transfer-encoding" message.headers ≠ [] :=
    List.ne_nil_of_mem (List.mem_of_getLast? last)
  have framed := framing_of_coded present coded
  have zero : utf8 "0" = [48] := by decide
  have behind : message.bodyBytes = sizeLine message.body.length ++ 13 :: 10 ::
      (message.body ++ 13 :: 10 :: 48 :: 13 :: 10 :: 13 :: 10 :: []) := by
    rw [bodyBytes, framed]
    simp [chunkBytes, sizeLine, lineEnd, zero]
  -- the lengths that remain do not matter, as the coding decides first
  obtain ⟨own, found, text⟩ := exists_last_codedHeaders last
  rw [readBack, behind, framed, splitBody?_of_coded found, text,
    splitChunks?_chunkBytes present small]

/-! ## Headers -/

private theorem filter_without {headers : Headers} {name : String}
    (framing : isFraming (name, []) = true) :
    (headers.filter (·.1 != name)).filter (!isFraming ·) = headers.filter (!isFraming ·) := by
  rw [List.filter_filter]
  refine List.filter_congr fun header _ => ?_
  by_cases same : header.1 = name
  · have framing : isFraming header = true := by
      rw [← framing, isFraming, isFraming, same]
    simp [framing]
  · simp [same]

private theorem filter_addChunks {headers : Headers} :
    (addChunks headers).filter (!isFraming ·) = headers.filter (!isFraming ·) := by
  by_cases absent : valuesOf "transfer-encoding" headers = []
  · rw [addChunks_eq, foldr_chunkStep_of_absent absent]
  · obtain ⟨before, value, after, rfl, last⟩ := exists_last_coding absent
    rw [addChunks_append value last, List.filter_append, List.filter_append]
    rfl

/-- Nothing but framing headers is added to the others, changed or left out. -/
theorem filter_framing (message : Message) :
    message.framing.1.filter (!isFraming ·) = message.withHost.filter (!isFraming ·) := by
  by_cases empty : message.body = []
  · rw [framing_of_empty empty]
    exact filter_without rfl
  · by_cases uncoded : valuesOf "transfer-encoding" message.headers = []
    · cases declared : declaredLength? message.headers with
      | some length => rw [framing_of_declared empty uncoded declared]
      | none =>
          rw [framing_of_undeclared empty uncoded declared, List.filter_append]
          refine (List.append_nil _).trans ?_
          exact filter_without rfl
    · rw [framing_of_coded empty uncoded, codedHeaders]
      have coded : (if endsInChunks message.withHost then message.withHost
          else addChunks message.withHost).filter (!isFraming ·) =
            message.withHost.filter (!isFraming ·) := by
        split
        · rfl
        · exact filter_addChunks
      split
      · exact (filter_without rfl).trans coded
      · exact coded

private theorem sendable_lengthHeader (message : Message) : Sendable message.lengthHeader := by
  constructor
  case present => exact (by decide : "content-length" ≠ "")
  case short => exact (by decide : "content-length".length ≤ greatestName)
  case token =>
    exact List.all_eq_true.mp (by decide : "content-length".toList.all isTokenChar = true)
  case lower => exact (by decide : Text.lowerCase "content-length" = "content-length")
  case value =>
    intro byte member
    obtain ⟨lower, upper⟩ := digit_of_mem_utf8_toString member
    have visible : 32 ≤ byte := UInt8.le_trans (by decide) lower
    have notDeleted : byte ≠ 127 := by
      rintro rfl
      exact absurd upper (by decide)
    simp [isValueByte, visible, notDeleted]

private theorem sendable_addChunks {headers : Headers}
    (sendable : ∀ header ∈ headers, Sendable header) :
    ∀ header ∈ addChunks headers, Sendable header := by
  by_cases absent : valuesOf "transfer-encoding" headers = []
  · rw [addChunks_eq, foldr_chunkStep_of_absent absent]
    exact sendable
  · obtain ⟨before, value, after, rfl, last⟩ := exists_last_coding absent
    obtain ⟨first, more⟩ := List.forall_mem_append.mp sendable
    obtain ⟨coding, others⟩ := List.forall_mem_cons.mp more
    rw [addChunks_append value last]
    refine List.forall_mem_append.mpr ⟨first, List.forall_mem_cons.mpr ⟨?_, others⟩⟩
    refine ⟨coding.present, coding.short, coding.token, coding.lower, ?_⟩
    exact List.forall_mem_append.mpr ⟨coding.value, List.all_eq_true.mp (by decide)⟩

/-- The framing headers can be told from the lines that they are written in, as the others can. -/
theorem sendable_framing {message : Message}
    (sendable : ∀ header ∈ message.withHost, Sendable header) :
    ∀ header ∈ message.framing.1, Sendable header := by
  have without {headers : Headers} (sendable : ∀ header ∈ headers, Sendable header)
      (name : String) : ∀ header ∈ headers.filter (·.1 != name), Sendable header :=
    fun header member => sendable header (List.mem_filter.mp member).1
  by_cases empty : message.body = []
  · rw [framing_of_empty empty]
    exact without sendable "transfer-encoding"
  · by_cases uncoded : valuesOf "transfer-encoding" message.headers = []
    · cases declared : declaredLength? message.headers with
      | some length =>
          rw [framing_of_declared empty uncoded declared]
          exact sendable
      | none =>
          rw [framing_of_undeclared empty uncoded declared]
          exact List.forall_mem_append.mpr ⟨without sendable "content-length",
            List.forall_mem_singleton.mpr (sendable_lengthHeader message)⟩
    · rw [framing_of_coded empty uncoded, codedHeaders]
      have coded : ∀ header ∈ (if endsInChunks message.withHost then message.withHost
          else addChunks message.withHost), Sendable header := by
        split
        · exact sendable
        · exact sendable_addChunks sendable
      split
      · exact without coded "content-length"
      · exact coded

end Message

end DocumentClient.Wire
