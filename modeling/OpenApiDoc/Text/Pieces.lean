/-! # Pieces between separators

A text is cut at every separator; there is one piece more than there are separators, and joining the
pieces gives the text back. -/

namespace OpenApiDoc.Text

/-- The pieces between separators. -/
def pieces (separator : Char) : List Char → List (List Char)
  | [] => [[]]
  | c :: rest =>
    match pieces separator rest with
    | [] => [[c]]
    | p :: ps => if c = separator then [] :: p :: ps else (c :: p) :: ps

theorem pieces_ne_nil (separator : Char) (cs : List Char) : pieces separator cs ≠ [] := by
  cases cs with
  | nil => simp [pieces]
  | cons c rest =>
    rw [pieces]
    split
    · simp
    · split <;> simp

theorem intercalate_pieces (separator : Char) (cs : List Char) :
    [separator].intercalate (pieces separator cs) = cs := by
  induction cs with
  | nil => simp [pieces, List.intercalate]
  | cons c rest ih =>
    rw [pieces]
    split
    · next h => exact absurd h (pieces_ne_nil separator rest)
    · next p ps h =>
      rw [h] at ih
      split
      · next hc => simpa [List.intercalate, hc] using ih
      · cases ps <;> simpa [List.intercalate] using ih

end OpenApiDoc.Text
