/-!
# Pieces of a text

A text is divided at every character of a class. There is one piece more than there are such
characters, and pieces may be empty.
-/
namespace ReducedMips.Text

/-- The pieces of a text between the characters that are separators. -/
def pieces (isSeparator : Char → Bool) (text : List Char) : List (List Char) :=
  text.foldr (fun c rest =>
    if isSeparator c then [] :: rest
    else
      match rest with
      | [] => [[c]]
      | piece :: rest => (c :: piece) :: rest) [[]]

variable (isSeparator : Char → Bool)

@[simp] theorem pieces_nil : pieces isSeparator [] = [[]] := rfl

theorem pieces_cons_separator {c : Char} (h : isSeparator c = true) (text : List Char) :
    pieces isSeparator (c :: text) = [] :: pieces isSeparator text := by
  simp [pieces, h]

theorem pieces_ne_nil (text : List Char) : pieces isSeparator text ≠ [] := by
  cases text with
  | nil => simp
  | cons c text =>
    simp only [pieces, List.foldr_cons]
    split
    · simp
    · split <;> simp

theorem pieces_cons_other {c : Char} (h : isSeparator c = false) (text : List Char) :
    ∃ piece rest, pieces isSeparator text = piece :: rest ∧
      pieces isSeparator (c :: text) = (c :: piece) :: rest := by
  cases hp : pieces isSeparator text with
  | nil => exact absurd hp (pieces_ne_nil isSeparator text)
  | cons piece rest =>
    refine ⟨piece, rest, rfl, ?_⟩
    simp only [pieces] at hp
    simp [pieces, h, hp]

end ReducedMips.Text
