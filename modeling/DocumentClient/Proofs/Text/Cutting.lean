import DocumentClient.Text.Pieces
import Mathlib.Data.List.DropRight

/-!
# Cutting and joining

Pieces that hold no separator survive being joined and cut again, and no piece holds one. What
stands behind a kept character is dropped from the end without touching that character.
-/

set_option autoImplicit false

namespace DocumentClient.Text

/-! ## Pieces -/

theorem pieces_cons (separator char : Char) (chars : List Char) :
    pieces separator (char :: chars) =
      if char = separator then [] :: pieces separator chars
      else (pieces separator chars).modifyHead (char :: ·) := by
  rw [pieces]
  split
  · rfl
  · cases found : pieces separator chars with
    | nil => exact absurd found (pieces_ne_nil separator chars)
    | cons piece others => rfl

private theorem pieces_eq_splitOn (separator : Char) (chars : List Char) :
    pieces separator chars = chars.splitOn separator := by
  induction chars with
  | nil => rfl
  | cons char chars ih =>
      simp only [pieces_cons, List.splitOn_cons_eq_if_modifyHead, beq_iff_eq, ih]

theorem pieces_intercalate {separator : Char} {texts : List (List Char)}
    (apart : ∀ text ∈ texts, separator ∉ text) (present : texts ≠ []) :
    pieces separator (List.intercalate [separator] texts) = texts := by
  rw [pieces_eq_splitOn, List.splitOn_intercalate separator apart present]

private theorem pieces_append_cons (separator : Char) (front rest : List Char) :
    pieces separator (front ++ separator :: rest) =
      pieces separator front ++ pieces separator rest := by
  simp only [pieces_eq_splitOn, List.splitOn_append_cons_self]

private theorem pieces_of_not_mem {separator : Char} {chars : List Char}
    (absent : separator ∉ chars) :
    pieces separator chars = [chars] := by
  rw [pieces_eq_splitOn, List.splitOn_eq_singleton absent]

theorem separator_not_mem_pieces {separator : Char} {chars piece : List Char}
    (member : piece ∈ pieces separator chars) : separator ∉ piece := by
  induction chars generalizing piece with
  | nil =>
      simp only [pieces, List.mem_singleton] at member
      simp [member]
  | cons char chars ih =>
      rw [pieces_cons] at member
      split at member
      · rcases List.mem_cons.mp member with rfl | member
        · exact List.not_mem_nil
        · exact ih member
      · rename_i different
        cases found : pieces separator chars with
        | nil => exact absurd found (pieces_ne_nil separator chars)
        | cons first others =>
            rw [found] at member ih
            rcases List.mem_cons.mp member with rfl | member
            · simp only [List.mem_cons, not_or]
              exact ⟨Ne.symm different, ih List.mem_cons_self⟩
            · exact ih (List.mem_cons_of_mem _ member)

theorem mem_of_mem_pieces {separator char : Char} {chars piece : List Char}
    (member : piece ∈ pieces separator chars) (inside : char ∈ piece) : char ∈ chars := by
  have joined : char ∈ List.intercalate [separator] (pieces separator chars) := by
    generalize pieces separator chars = texts at member
    induction texts with
    | nil => simp at member
    | cons text texts ih =>
        cases texts with
        | nil => simp_all
        | cons next texts =>
            simp only [List.intercalate_cons_cons, List.mem_append]
            rcases List.mem_cons.mp member with rfl | member
            · exact .inl (.inl inside)
            · exact .inr (ih member)
  rwa [intercalate_pieces] at joined

theorem mem_of_mem_intercalate {separator : List Char} {texts : List (List Char)} {char : Char}
    (member : char ∈ List.intercalate separator texts) :
    char ∈ separator ∨ ∃ text ∈ texts, char ∈ text := by
  induction texts with
  | nil => simp at member
  | cons text texts ih =>
      cases texts with
      | nil => exact .inr ⟨text, List.mem_cons_self, by simpa using member⟩
      | cons next texts =>
          simp only [List.intercalate_cons_cons, List.mem_append] at member
          rcases member with (member | member) | member
          · exact .inr ⟨text, List.mem_cons_self, member⟩
          · exact .inl member
          · rcases ih member with inside | ⟨other, found, inside⟩
            · exact .inl inside
            · exact .inr ⟨other, List.mem_cons_of_mem _ found, inside⟩

/-! ## Texts -/

@[simp] theorem toList_join (separator : String) (texts : List String) :
    (join separator texts).toList =
      List.intercalate separator.toList (texts.map String.toList) := by
  induction texts with
  | nil => simp [join]
  | cons text texts ih =>
      cases texts with
      | nil => simp [join]
      | cons next texts =>
          simp only [join, String.toList_append, ih, List.map_cons, List.intercalate_cons_cons]

theorem join_cons (separator text : String) {more : List String} (present : more ≠ []) :
    join separator (text :: more) = text ++ separator ++ join separator more := by
  cases more with
  | nil => exact absurd rfl present
  | cons next more => rfl

theorem piecesOf_ne_nil (separator : Char) (text : String) : piecesOf separator text ≠ [] := by
  simp [piecesOf, pieces_ne_nil]

theorem join_piecesOf (text : String) : join "/" (piecesOf '/' text) = text := by
  rw [← String.toList_inj, toList_join, piecesOf, List.map_map]
  have cut : (pieces '/' text.toList).map (String.toList ∘ String.ofList) =
      pieces '/' text.toList := by
    simp [Function.comp_def]
  rw [cut]
  exact intercalate_pieces '/' text.toList

theorem piecesOf_inj {first second : String} (same : piecesOf '/' first = piecesOf '/' second) :
    first = second := by
  rw [← join_piecesOf first, ← join_piecesOf second, same]

theorem piecesOf_join {texts : List String} (apart : ∀ text ∈ texts, '/' ∉ text.toList)
    (present : texts ≠ []) : piecesOf '/' (join "/" texts) = texts := by
  have cut : pieces '/' (join "/" texts).toList = texts.map String.toList := by
    rw [toList_join]
    exact pieces_intercalate (List.forall_mem_map.mpr apart) (by simpa using present)
  rw [piecesOf, cut, List.map_map]
  simp [Function.comp_def]

theorem piecesOf_append (front rest : String) :
    piecesOf '/' (front ++ "/" ++ rest) = piecesOf '/' front ++ piecesOf '/' rest := by
  have chars : (front ++ "/" ++ rest).toList = front.toList ++ '/' :: rest.toList := by simp
  rw [piecesOf, chars, pieces_append_cons, List.map_append]
  rfl

theorem piecesOf_of_not_mem {separator : Char} {text : String}
    (absent : separator ∉ text.toList) : piecesOf separator text = [text] := by
  rw [piecesOf, pieces_of_not_mem absent, List.map_singleton, String.ofList_toList]

private theorem separator_not_mem_piecesOf {separator : Char} {text piece : String}
    (member : piece ∈ piecesOf separator text) : separator ∉ piece.toList := by
  obtain ⟨chars, found, rfl⟩ := List.mem_map.mp member
  rw [String.toList_ofList]
  exact separator_not_mem_pieces found

private theorem afterLast_eq_getLast (separator : Char) (text : String) :
    afterLast separator text =
      (piecesOf separator text).getLast (piecesOf_ne_nil separator text) := by
  simp [afterLast, piecesOf, List.getLast?_eq_getLast_of_ne_nil (pieces_ne_nil _ _)]

theorem afterLast_append (front rest : String) :
    afterLast '/' (front ++ "/" ++ rest) = afterLast '/' rest := by
  simp only [afterLast_eq_getLast, piecesOf_append]
  exact List.getLast_append_of_ne_nil _ (piecesOf_ne_nil '/' rest)

theorem separator_not_mem_afterLast (separator : Char) (text : String) :
    separator ∉ (afterLast separator text).toList := by
  rw [afterLast_eq_getLast]
  exact separator_not_mem_piecesOf (List.getLast_mem _)

theorem afterLast_eq_self_iff {separator : Char} {text : String} :
    afterLast separator text = text ↔ separator ∉ text.toList := by
  constructor
  · intro whole
    rw [← whole]
    exact separator_not_mem_afterLast separator text
  · intro absent
    simp only [afterLast_eq_getLast, piecesOf_of_not_mem absent, List.getLast_singleton]

/-! ## Dropping from the end -/

theorem rdropWhile_append_cons {α : Type} (drops : α → Bool) {kept : α} (keeps : ¬ drops kept)
    (front rest : List α) :
    (front ++ kept :: rest).rdropWhile drops = front ++ kept :: rest.rdropWhile drops := by
  induction rest using List.reverseRecOn with
  | nil => simpa using List.rdropWhile_concat_neg drops front kept keeps
  | append_singleton rest last ih =>
      rw [← List.cons_append, ← List.append_assoc]
      by_cases dropped : drops last
      · rw [List.rdropWhile_concat_pos _ _ _ dropped, List.rdropWhile_concat_pos _ _ _ dropped, ih]
      · rw [List.rdropWhile_concat_neg _ _ _ dropped, List.rdropWhile_concat_neg _ _ _ dropped]
        simp

end DocumentClient.Text
