import DocumentClient.Proofs.Url.Path

/-!
# The encoding of paths

A path is written segment by segment, and yet in one format: that of a segment, but for the slash. So
what is written for a path holds nothing that a URL takes for more than a name, it reads back as the
path, and what is written for two paths around a slash is what is written for each.
-/

set_option autoImplicit false

namespace DocumentClient

/-! ## Complete escapes -/

namespace Percent

/-- Every percent sign starts an escape of two hexadecimal digits. -/
def EscapesComplete (chars : List Char) : Prop :=
  ∀ before after, chars = before ++ '%' :: after →
    ∃ high low rest, after = high :: low :: rest ∧
      high ∈ "0123456789ABCDEF".toList ∧ low ∈ "0123456789ABCDEF".toList

private theorem escapesComplete_of_not_mem {chars : List Char} (absent : '%' ∉ chars) :
    EscapesComplete chars := by
  rintro before after rfl
  exact absurd (by simp) absent

theorem EscapesComplete.append {front rest : List Char} (complete : EscapesComplete front)
    (others : EscapesComplete rest) : EscapesComplete (front ++ rest) := by
  intro before after cut
  rcases List.append_eq_append_iff.mp cut with ⟨more, behind, own⟩ | ⟨more, own, behind⟩
  · exact others more after own
  · cases more with
    | nil => exact others [] after behind.symm
    | cons char more =>
        obtain ⟨rfl, rfl⟩ := List.cons.inj behind
        obtain ⟨high, low, rest', rfl, digits⟩ := complete before more own
        exact ⟨high, low, rest' ++ rest, rfl, digits⟩

private theorem upperHexDigit_mem {value : Nat} (small : value < 16) :
    upperHexDigit value ∈ "0123456789ABCDEF".toList :=
  (by decide : ∀ value < 16, upperHexDigit value ∈ "0123456789ABCDEF".toList) value small

private theorem escapesComplete_escapeByte (byte : UInt8) : EscapesComplete (escapeByte byte) := by
  have bound : byte.toNat < 256 := byte.toNat_lt
  have high : upperHexDigit (byte.toNat / 16) ∈ "0123456789ABCDEF".toList :=
    upperHexDigit_mem (by omega)
  have low : upperHexDigit (byte.toNat % 16) ∈ "0123456789ABCDEF".toList :=
    upperHexDigit_mem (by omega)
  have noSign : '%' ∉ "0123456789ABCDEF".toList := by decide
  intro before after cut
  rw [escapeByte] at cut
  cases before with
  | nil =>
      obtain ⟨-, rfl⟩ := List.cons.inj cut
      exact ⟨_, _, [], rfl, high, low⟩
  | cons char before =>
      -- The two digits are no percent signs.
      obtain ⟨-, digits⟩ := List.cons.inj cut
      have sign : '%' ∈ [upperHexDigit (byte.toNat / 16), upperHexDigit (byte.toNat % 16)] := by
        rw [digits]
        simp
      simp only [List.mem_cons, List.not_mem_nil, or_false] at sign
      rcases sign with same | same
      · exact absurd (same ▸ high) noSign
      · exact absurd (same ▸ low) noSign

private theorem escapesComplete_flatMap {α : Type} {write : α → List Char} {values : List α}
    (complete : ∀ value ∈ values, EscapesComplete (write value)) :
    EscapesComplete (values.flatMap write) := by
  induction values with
  | nil => exact escapesComplete_of_not_mem List.not_mem_nil
  | cons value values ih =>
      rw [List.flatMap_cons]
      exact (complete value List.mem_cons_self).append
        (ih fun other member => complete other (List.mem_cons_of_mem _ member))

private theorem escapesComplete_encodeChars {escaped : EscapeSet} (percent : escaped '%' = true)
    (chars : List Char) : EscapesComplete (encodeChars escaped chars) := by
  refine escapesComplete_flatMap fun char _ => ?_
  by_cases kept : Kept escaped char
  · rw [encodeChar_of_kept kept]
    refine escapesComplete_of_not_mem fun sign => ?_
    rw [← List.mem_singleton.mp sign, Kept, percent] at kept
    exact Bool.noConfusion kept.2
  · rw [encodeChar_of_not_kept kept]
    exact escapesComplete_flatMap fun byte _ => escapesComplete_escapeByte byte

private theorem encodeChars_intercalate (escaped : EscapeSet) {separator : Char}
    (kept : Kept escaped separator) (texts : List (List Char)) :
    encodeChars escaped (List.intercalate [separator] texts) =
      List.intercalate [separator] (texts.map (encodeChars escaped)) := by
  induction texts with
  | nil => rfl
  | cons text texts ih =>
      cases texts with
      | nil => simp
      | cons next texts =>
          rw [List.map_cons] at ih ⊢
          rw [List.map_cons, List.intercalate_cons_cons, List.intercalate_cons_cons, ← ih]
          simp [encodeChars, encodeChar_of_kept kept]

end Percent

namespace PathSegment

/-! ## Written paths -/

def writtenPath (path : String) : String :=
  Text.join "/" ((Text.piecesOf '/' path).map written)

/-- The format of a path: a slash is written as it is. -/
def escapedButSlash : Percent.EscapeSet :=
  fun char => escaped char && char != '/'

private theorem encodeChars_escapedButSlash {chars : List Char} (absent : '/' ∉ chars) :
    Percent.encodeChars escapedButSlash chars = Percent.encodeChars escaped chars := by
  refine List.flatMap_congr fun char member => ?_
  have different : char ≠ '/' := by
    rintro rfl
    exact absent member
  simp [Percent.encodeChar, escapedButSlash, different]

private theorem writtenPath_eq (path : String) :
    writtenPath path = Percent.encode escapedButSlash path := by
  rw [← String.toList_inj, writtenPath, Text.toList_join]
  have segments : ((Text.piecesOf '/' path).map written).map String.toList =
      (Text.pieces '/' path.toList).map (Percent.encodeChars escapedButSlash) := by
    rw [Text.piecesOf, List.map_map, List.map_map]
    refine List.map_congr_left fun piece member => ?_
    rw [encodeChars_escapedButSlash (Text.separator_not_mem_pieces member)]
    simp [written, Percent.encode]
  rw [segments]
  change List.intercalate ['/'] _ = _
  rw [← Percent.encodeChars_intercalate escapedButSlash ⟨by decide, by decide⟩,
    Text.intercalate_pieces, Percent.encode, String.toList_ofList]

private theorem piecesOf_writtenPath (path : String) :
    Text.piecesOf '/' (writtenPath path) = (Text.piecesOf '/' path).map written :=
  piecesOf_join_written (Text.piecesOf_ne_nil '/' path)

private theorem encode_eq_ok_iff {segment what output : String} :
    encode segment what = .ok output ↔ Acceptable segment ∧ written segment = output := by
  by_cases acceptable : Acceptable segment
  · simp [encode_of_acceptable acceptable, acceptable]
  · obtain ⟨misuse, failed⟩ := encode_of_not_acceptable acceptable what
    simp [failed, acceptable]

private theorem encodePath_eq_ok_iff {path what output : String} :
    encodePath path what = .ok output ↔ AcceptablePath path ∧ writtenPath path = output := by
  by_cases acceptable : AcceptablePath path
  · simp [encodePath_of_acceptable acceptable, acceptable, writtenPath]
  · obtain ⟨misuse, failed⟩ := encodePath_of_not_acceptable acceptable what
    simp [failed, acceptable]

private theorem acceptablePath_append_iff {first second : String} :
    AcceptablePath (first ++ "/" ++ second) ↔ AcceptablePath first ∧ AcceptablePath second := by
  rw [AcceptablePath, Text.piecesOf_append, List.forall_mem_append]
  rfl

private theorem writtenPath_append (first second : String) :
    writtenPath (first ++ "/" ++ second) = writtenPath first ++ "/" ++ writtenPath second := by
  refine Text.piecesOf_inj ?_
  rw [Text.piecesOf_append, piecesOf_writtenPath, piecesOf_writtenPath, piecesOf_writtenPath,
    Text.piecesOf_append, List.map_append]

/-! ## What is written -/

/-- A character that stands for itself in the path of a URL: printable, in ASCII, and neither a blank
nor one of those that a URL escapes or ends a path at. -/
def UrlSafe (char : Char) : Prop :=
  0x20 < char.toNat ∧ char.toNat < 0x7F ∧ char ∉ "\"#<>`?\x7b\x7d\\".toList

instance (char : Char) : Decidable (UrlSafe char) :=
  inferInstanceAs (Decidable (_ ∧ _ ∧ _))

/-- Something written in the place of a text, of which a URL reader changes nothing and from which the
text can be read again. -/
structure StandsFor (output text : String) : Prop where
  safe : ∀ char ∈ output.toList, UrlSafe char
  escapes : Percent.EscapesComplete output.toList
  decoded : Percent.decode (utf8 output) = utf8 text
  dots : ∀ segment ∈ Text.piecesOf '/' output,
    Url.isDot segment = false ∧ Url.isDoubleDot segment = false

theorem StandsFor.text_eq {output first second : String} (stands : StandsFor output first)
    (other : StandsFor output second) : first = second :=
  utf8_inj.mp (stands.decoded.symm.trans other.decoded)

/-- What a format writes that escapes the percent sign and keeps only what is safe. -/
theorem standsFor_encode {format : Percent.EscapeSet} (percent : format '%' = true)
    (checked : (List.range 128).all (fun code =>
      (format (Char.ofNat code) && !Percent.isEscapeChar (Char.ofNat code)) ||
        decide (UrlSafe (Char.ofNat code))) = true)
    {text : String}
    (settled : ∀ segment ∈ Text.piecesOf '/' (Percent.encode format text), Url.Settled segment) :
    StandsFor (Percent.encode format text) text := by
  have chars : (Percent.encode format text).toList = Percent.encodeChars format text.toList :=
    String.toList_ofList
  constructor
  case safe =>
    intro char member
    rw [chars] at member
    exact of_decide_eq_true
      (Percent.encodeChars_all (fun char => decide (UrlSafe char)) checked member)
  case escapes =>
    rw [chars]
    exact Percent.escapesComplete_encodeChars percent text.toList
  case decoded => exact Percent.decode_utf8_encode percent text
  case dots =>
    intro segment member
    exact ⟨(settled segment member).notDot, (settled segment member).notDoubleDot⟩

private theorem standsFor_written {segment : String} (acceptable : Acceptable segment) :
    StandsFor (written segment) segment := by
  refine standsFor_encode (by decide) (by decide) ?_
  have whole := Text.piecesOf_of_not_mem (slash_not_mem_written segment)
  rw [written] at whole
  rw [whole, List.forall_mem_singleton]
  exact Url.settled_written acceptable

private theorem standsFor_writtenPath {path : String} (acceptable : AcceptablePath path) :
    StandsFor (writtenPath path) path := by
  rw [writtenPath_eq]
  refine standsFor_encode (by decide) (by decide) ?_
  rw [← writtenPath_eq, piecesOf_writtenPath, List.forall_mem_map]
  exact fun piece member => Url.settled_written (acceptable piece member)

/-- Exactly the acceptable names and paths have a written form. It stands for them in a URL, has as
many segments, differs for different ones, and takes a path apart at any slash. -/
theorem encoding_keeps_segments (what : String) :
    (∀ segment, (∃ output, encode segment what = .ok output) ↔
      segment ≠ "" ∧ segment ≠ "." ∧ segment ≠ "..") ∧
    (∀ path, (∃ output, encodePath path what = .ok output) ↔
      ∀ piece ∈ Text.piecesOf '/' path, ∃ output, encode piece what = .ok output) ∧
    (∀ segment output, encode segment what = .ok output →
      StandsFor output segment ∧ '/' ∉ output.toList) ∧
    (∀ path output, encodePath path what = .ok output →
      StandsFor output path ∧
        (Text.piecesOf '/' output).length = (Text.piecesOf '/' path).length) ∧
    (∀ first second output, encodePath (first ++ "/" ++ second) what = .ok output ↔
      ∃ front rest, encodePath first what = .ok front ∧ encodePath second what = .ok rest ∧
        output = front ++ "/" ++ rest) ∧
    (∀ first second output, encode first what = .ok output → encode second what = .ok output →
      first = second) ∧
    ∀ first second output, encodePath first what = .ok output →
      encodePath second what = .ok output → first = second := by
  simp only [encode_eq_ok_iff, encodePath_eq_ok_iff]
  refine ⟨?_, ?_, ?_, ?_, ?_, ?_, ?_⟩
  · intro segment
    simp [Acceptable]
  · intro path
    simp [AcceptablePath]
  · rintro segment output ⟨acceptable, rfl⟩
    exact ⟨standsFor_written acceptable, slash_not_mem_written segment⟩
  · rintro path output ⟨acceptable, rfl⟩
    exact ⟨standsFor_writtenPath acceptable, by rw [piecesOf_writtenPath, List.length_map]⟩
  · intro first second output
    rw [acceptablePath_append_iff, writtenPath_append]
    constructor
    · rintro ⟨⟨here, there⟩, rfl⟩
      exact ⟨_, _, ⟨here, rfl⟩, ⟨there, rfl⟩, rfl⟩
    · rintro ⟨front, rest, ⟨here, rfl⟩, ⟨there, rfl⟩, rfl⟩
      exact ⟨⟨here, there⟩, rfl⟩
  · rintro first second output ⟨acceptable, rfl⟩ ⟨other, same⟩
    exact (standsFor_written acceptable).text_eq (same ▸ standsFor_written other)
  · rintro first second output ⟨acceptable, rfl⟩ ⟨other, same⟩
    exact (standsFor_writtenPath acceptable).text_eq (same ▸ standsFor_writtenPath other)

/-- An escape in a name is no escape of the path, and a dot beside it makes no dot segment. -/
theorem encoding_keeps_escaped_dots :
    let path := "a b/.%2e/é?"
    let output := "a%20b/.%252e/%C3%A9%3F"
    encodePath path "attachment key" = .ok output ∧ StandsFor output path ∧
      (Text.piecesOf '/' output).length = (Text.piecesOf '/' path).length ∧
      ∀ other, encodePath other "attachment key" = .ok output → other = path := by
  intro path output
  have made : encodePath path "attachment key" = .ok output := by decide +kernel
  obtain ⟨_, _, _, paths, _, _, apart⟩ := encoding_keeps_segments "attachment key"
  obtain ⟨stands, segments⟩ := paths path output made
  exact ⟨made, stands, segments, fun other same => apart other path output same made⟩

end PathSegment

end DocumentClient
