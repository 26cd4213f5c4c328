/-!
# Pieces of a text

Cutting a text at every occurrence of a separator, and joining pieces again. A text without the
separator is one piece, and the empty text is one empty piece.
-/

set_option autoImplicit false

namespace DocumentClient.Text

/-- The maximal stretches between separators, in order. -/
def pieces (separator : Char) : List Char → List (List Char)
  | [] => [[]]
  | char :: rest =>
    if char = separator then [] :: pieces separator rest
    else match pieces separator rest with
      | [] => [[char]]
      | piece :: others => (char :: piece) :: others

def piecesOf (separator : Char) (text : String) : List String :=
  (pieces separator text.toList).map String.ofList

def join (separator : String) : List String → String
  | [] => ""
  | [text] => text
  | text :: more => text ++ separator ++ join separator more

/-- The text after the last separator, or all of it if there is none. -/
def afterLast (separator : Char) (text : String) : String :=
  String.ofList (((pieces separator text.toList).getLast?).getD [])

theorem pieces_ne_nil (separator : Char) (chars : List Char) : pieces separator chars ≠ [] := by
  cases chars with
  | nil => simp [pieces]
  | cons char rest =>
      simp only [pieces]
      split
      · simp
      · split <;> simp

/-- Joining the pieces with the separator gives the text back. -/
theorem intercalate_pieces (separator : Char) (chars : List Char) :
    List.intercalate [separator] (pieces separator chars) = chars := by
  induction chars with
  | nil => simp [pieces]
  | cons char rest ih =>
      simp only [pieces]
      split
      · rename_i same
        subst same
        cases found : pieces char rest with
        | nil => exact absurd found (pieces_ne_nil char rest)
        | cons piece others =>
            rw [found] at ih
            simp [List.intercalate, List.intersperse] at ih ⊢
            exact ih
      · cases found : pieces separator rest with
        | nil => exact absurd found (pieces_ne_nil separator rest)
        | cons piece others =>
            rw [found] at ih
            cases others <;> simp_all [List.intercalate, List.intersperse]

end DocumentClient.Text
