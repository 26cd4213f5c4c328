import DocumentClient.Text.Pieces

/-!
# Stretches between separators

Cutting a text at every occurrence of a separator that is itself a text. Texts without the first
character of the separator survive being joined and cut again.
-/

set_option autoImplicit false

namespace DocumentClient.Text

/-- The stretches between occurrences of a separator, found from the left. So many characters of an
occurrence are still to be passed over. -/
def stretchesFrom (separator : List Char) : Nat → List Char → List (List Char)
  | _, [] => [[]]
  | passed + 1, _ :: rest => stretchesFrom separator passed rest
  | 0, char :: rest =>
    if separator.isPrefixOf (char :: rest) then
      [] :: stretchesFrom separator (separator.length - 1) rest
    else (stretchesFrom separator 0 rest).modifyHead (char :: ·)

def stretches (separator chars : List Char) : List (List Char) :=
  stretchesFrom separator 0 chars

private theorem stretchesFrom_append (separator passed rest : List Char) :
    stretchesFrom separator passed.length (passed ++ rest) = stretches separator rest := by
  induction passed with
  | nil => rfl
  | cons char passed ih => exact ih

private theorem stretches_append (first : Char) (others rest : List Char) {text : List Char}
    (absent : first ∉ text) :
    stretches (first :: others) (text ++ (first :: others) ++ rest) =
      text :: stretches (first :: others) rest := by
  induction text with
  | nil =>
      have found : (first :: others).isPrefixOf (first :: (others ++ rest)) = true := by simp
      rw [List.nil_append, List.cons_append, stretches, stretchesFrom, if_pos found]
      exact congrArg ([] :: ·) (stretchesFrom_append (first :: others) others rest)
  | cons char text ih =>
      -- No occurrence starts here, since it would start with its first character.
      simp only [List.mem_cons, not_or] at absent
      have different :
          ¬ (first :: others).isPrefixOf (char :: (text ++ first :: others ++ rest)) := by
        simp [absent.1]
      rw [List.cons_append, List.cons_append, stretches, stretchesFrom, if_neg different]
      change (stretches _ _).modifyHead _ = _
      rw [ih absent.2]
      rfl

private theorem stretches_of_not_mem (first : Char) (others : List Char) {text : List Char}
    (absent : first ∉ text) : stretches (first :: others) text = [text] := by
  induction text with
  | nil => rfl
  | cons char text ih =>
      simp only [List.mem_cons, not_or] at absent
      have different : ¬ (first :: others).isPrefixOf (char :: text) := by
        simp [absent.1]
      rw [stretches, stretchesFrom, if_neg different]
      change (stretches _ _).modifyHead _ = _
      rw [ih absent.2]
      rfl

theorem stretches_intercalate (first : Char) (others : List Char) {texts : List (List Char)}
    (apart : ∀ text ∈ texts, first ∉ text) (present : texts ≠ []) :
    stretches (first :: others) (List.intercalate (first :: others) texts) = texts := by
  induction texts with
  | nil => exact absurd rfl present
  | cons text texts ih =>
      have own := apart text List.mem_cons_self
      cases texts with
      | nil => simpa using stretches_of_not_mem first others own
      | cons next texts =>
          rw [List.intercalate_cons_cons, stretches_append first others _ own,
            ih (fun other member => apart other (List.mem_cons_of_mem _ member)) (by simp)]

end DocumentClient.Text
