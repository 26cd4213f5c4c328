import DocumentClient.Form
import DocumentClient.Proofs.Percent
import DocumentClient.Proofs.Text.Cutting

/-!
# Form encoding and its reading

A line is read back as the pairs that it was written for, in their order and whatever they hold.
-/

set_option autoImplicit false

namespace DocumentClient.Form

def isTextChar (char : Char) : Bool :=
  decide (char.toNat < 128) && (char.isAlphanum || "*-._%+".toList.contains char)

private theorem isTextChar_of_mem_encodeChar {source char : Char}
    (member : char ∈ encodeChar source) :
    isTextChar char = true := by
  unfold encodeChar at member
  split at member
  · rw [List.mem_singleton.mp member]
    decide
  · have written : char ∈ Percent.encodeChars escaped [source] := by
      simpa [Percent.encodeChars] using member
    exact Percent.encodeChars_all isTextChar (by decide) written

private theorem isTextChar_of_mem_encodeText {text : String} {char : Char}
    (member : char ∈ (encodeText text).toList) : isTextChar char = true := by
  rw [encodeText, String.toList_ofList] at member
  obtain ⟨source, _, written⟩ := List.mem_flatMap.mp member
  exact isTextChar_of_mem_encodeChar written

private theorem not_mem_encodeText (char : Char) (outside : isTextChar char = false)
    (text : String) :
    char ∉ (encodeText text).toList := by
  intro member
  cases outside.symm.trans (isTextChar_of_mem_encodeText member)

/-! ## Texts -/

/-- A blank is written as a plus sign, so that the format escapes everything else only. -/
def escapedButBlank : Percent.EscapeSet :=
  fun char => escaped char && char != ' '

private theorem map_encodeChar (char : Char) :
    (encodeChar char).map (fun char => if char = '+' then ' ' else char) =
      Percent.encodeChar escapedButBlank char := by
  by_cases blank : char = ' '
  · subst blank
    rfl
  · have same : Percent.encodeChar escapedButBlank char = Percent.encodeChar escaped char := by
      simp [Percent.encodeChar, escapedButBlank, blank]
    -- A plus sign of the text is escaped, so none that is written comes from it.
    have noPlus : ∀ written ∈ Percent.encodeChar escaped char, written ≠ '+' := by
      intro written member
      have inside : written ∈ Percent.encodeChars escaped [char] := by
        simpa [Percent.encodeChars] using member
      simpa using Percent.encodeChars_all (· != '+') (by decide) inside
    rw [encodeChar, if_neg blank, same]
    refine Eq.trans (List.map_congr_left fun written member => ?_) (List.map_id _)
    exact if_neg (noPlus written member)

private theorem decodeText_encodeText (text : String) :
    decodeText (encodeText text).toList = utf8 text := by
  have blanks : (encodeText text).toList.map (fun char => if char = '+' then ' ' else char) =
      Percent.encodeChars escapedButBlank text.toList := by
    rw [encodeText, String.toList_ofList, List.map_flatMap, Percent.encodeChars]
    exact List.flatMap_congr fun char _ => map_encodeChar char
  rw [decodeText, blanks, Percent.decode_encodeChars (by decide), utf8]

/-! ## Pairs -/

private theorem toList_encodePair (pair : String × String) :
    (encodePair pair).toList = (encodeText pair.1).toList ++ '=' :: (encodeText pair.2).toList := by
  simp [encodePair]

private theorem decodePair_encodePair (pair : String × String) :
    decodePair (encodePair pair).toList = (utf8 pair.1, utf8 pair.2) := by
  have name : ∀ char ∈ (encodeText pair.1).toList, (char != '=') = true := by
    intro char member
    rw [bne_iff_ne]
    intro same
    subst same
    exact not_mem_encodeText '=' (by decide) _ member
  rw [decodePair, toList_encodePair, List.takeWhile_append_of_pos name,
    List.dropWhile_append_of_pos name, List.takeWhile_cons_of_neg (by decide),
    List.dropWhile_cons_of_neg (by decide), List.append_nil, List.drop_one, List.tail_cons,
    decodeText_encodeText, decodeText_encodeText]

private theorem ampersand_not_mem_encodePair (pair : String × String) :
    '&' ∉ (encodePair pair).toList := by
  rw [toList_encodePair]
  simp [not_mem_encodeText '&' (by decide)]

/-! ## Lines -/

private theorem pieces_encode {pairs : List (String × String)} (present : pairs ≠ []) :
    Text.pieces '&' (encode pairs).toList = pairs.map fun pair => (encodePair pair).toList := by
  have apart : ∀ text ∈ pairs.map (fun pair => (encodePair pair).toList), '&' ∉ text := by
    intro text found
    obtain ⟨pair, _, rfl⟩ := List.mem_map.mp found
    exact ampersand_not_mem_encodePair pair
  have text : (encode pairs).toList =
      List.intercalate ['&'] (pairs.map fun pair => (encodePair pair).toList) := by
    simp [encode, Function.comp_def]
  rw [text, Text.pieces_intercalate apart (by simpa)]

/-- Reading takes back what writing has done. -/
theorem decode_encode (pairs : List (String × String)) :
    decode (encode pairs) = pairs.map fun pair => (utf8 pair.1, utf8 pair.2) := by
  by_cases present : pairs = []
  · subst present
    rfl
  · have filled : ∀ text ∈ pairs.map (fun pair => (encodePair pair).toList),
        (!text.isEmpty) = true := by
      intro text found
      obtain ⟨pair, _, rfl⟩ := List.mem_map.mp found
      simp [toList_encodePair]
    rw [decode, pieces_encode present, List.filter_eq_self.mpr filled, List.map_map]
    exact List.map_congr_left fun pair _ => decodePair_encodePair pair

theorem encode_eq_empty_iff {pairs : List (String × String)} : encode pairs = "" ↔ pairs = [] := by
  constructor
  · intro nothing
    have read := decode_encode pairs
    rw [nothing] at read
    exact List.map_eq_nil_iff.mp read.symm
  · rintro rfl
    rfl

theorem mem_encode {pairs : List (String × String)} {char : Char}
    (member : char ∈ (encode pairs).toList) :
    isTextChar char = true ∨ char = '=' ∨ char = '&' := by
  rw [encode, Text.toList_join] at member
  rcases Text.mem_of_mem_intercalate member with separator | ⟨_, found, inside⟩
  · exact .inr (.inr (List.mem_singleton.mp separator))
  · simp only [List.mem_map] at found
    obtain ⟨_, ⟨pair, _, rfl⟩, rfl⟩ := found
    rw [toList_encodePair, List.mem_append, List.mem_cons] at inside
    rcases inside with name | separator | value
    · exact .inl (isTextChar_of_mem_encodeText name)
    · exact .inr (.inl separator)
    · exact .inl (isTextChar_of_mem_encodeText value)

/-! ## Tables -/

/-- What the entries of a table are written as, one after the other. -/
def WrittenAs (entries : List (Datum × Datum)) (pairs : List (String × String)) : Prop :=
  ∃ texts, entries.mapM (fun entry => namedTexts entry.1 entry.2) = .ok texts ∧
    texts.flatten = pairs

theorem writtenAs_nil : WrittenAs [] [] :=
  ⟨[], rfl, rfl⟩

theorem WrittenAs.append {entries later : List (Datum × Datum)} {pairs others : List (String × String)}
    (first : WrittenAs entries pairs) (second : WrittenAs later others) :
    WrittenAs (entries ++ later) (pairs ++ others) := by
  obtain ⟨texts, success, rfl⟩ := first
  obtain ⟨more, laterSuccess, rfl⟩ := second
  refine ⟨texts ++ more, ?_, List.flatten_append⟩
  rw [List.mapM_append, success, laterSuccess]
  rfl

theorem writtenAs_text (name text : String) :
    WrittenAs [(.text name, .present (.text text))] [(name, text)] :=
  ⟨[[(name, text)]], rfl, rfl⟩

theorem writtenAs_count (name : String) (count : Nat) :
    WrittenAs [(.text name, .present (.integer count))] [(name, toString count)] :=
  ⟨[[(name, toString count)]], rfl, rfl⟩

private theorem mapM_memberTexts (texts : List String) :
    (texts.map Datum.text).mapM memberTexts = .ok (texts.map fun text => [text]) := by
  induction texts with
  | nil => rfl
  | cons text texts ih =>
      rw [List.map_cons, List.mapM_cons, ih]
      rfl

/-- A list is written as one pair for each of its members. -/
theorem writtenAs_list (name : String) (texts : List String) :
    WrittenAs [(.text name, .list (texts.map .text))] (texts.map (name, ·)) := by
  have pairs : namedTexts (.text name) (.list (texts.map .text)) = .ok (texts.map (name, ·)) := by
    rw [namedTexts, valueTexts, mapM_memberTexts]
    change Except.ok ((texts.map fun text => [text]).flatten.map (name, ·)) = _
    rw [← List.flatMap_def, List.flatMap_singleton']
  refine ⟨[texts.map (name, ·)], ?_, by simp⟩
  rw [List.mapM_cons, pairs]
  rfl

theorem write_table {entries : List (Datum × Datum)} {pairs : List (String × String)}
    (written : WrittenAs entries pairs) : write (.table entries) = .ok (encode pairs) := by
  obtain ⟨texts, success, rfl⟩ := written
  rw [write, pairsOf, success]
  rfl

end DocumentClient.Form
