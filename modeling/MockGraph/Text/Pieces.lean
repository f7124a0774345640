/-!
# `Text/Pieces`: cutting a text at a separator

`Text.pieces` cuts at every occurrence of one character, keeping empty pieces, so that joining the
pieces with the separator gives the text back (`join_pieces`). `Text.splitFirst?` cuts at the first
occurrence only.
-/

set_option autoImplicit false

namespace MockGraph.Text

/-- The pieces between the occurrences of a separator. There is always at least one. -/
def pieces (separator : Char) : List Char → List (List Char)
  | [] => [[]]
  | c :: cs =>
    if c = separator then [] :: pieces separator cs
    else match pieces separator cs with
      | [] => [[c]]
      | piece :: rest => (c :: piece) :: rest

/-- Pieces with the separator between neighbours. -/
def join (separator : Char) : List (List Char) → List Char
  | [] => []
  | [piece] => piece
  | piece :: rest => piece ++ separator :: join separator rest

/-- What stands before and after the first occurrence of a separator. -/
def splitFirst? (separator : Char) : List Char → Option (List Char × List Char)
  | [] => none
  | c :: cs =>
    if c = separator then some ([], cs)
    else (splitFirst? separator cs).map fun (before, after) => (c :: before, after)

theorem pieces_ne_nil (separator : Char) (cs : List Char) : pieces separator cs ≠ [] := by
  cases cs with
  | nil => simp [pieces]
  | cons c cs =>
    unfold pieces
    split
    · simp
    · split <;> simp

/-- Cutting loses nothing. -/
theorem join_pieces (separator : Char) (cs : List Char) :
    join separator (pieces separator cs) = cs := by
  induction cs with
  | nil => rfl
  | cons c cs ih =>
    unfold pieces
    split
    · next h =>
      subst h
      have hne := pieces_ne_nil c cs
      cases hp : pieces c cs with
      | nil => exact absurd hp hne
      | cons piece rest => rw [hp] at ih; simp [join, ih]
    · split
      · next hp => exact absurd hp (pieces_ne_nil separator cs)
      · next piece rest hp =>
        rw [hp] at ih
        cases rest with
        | nil => simpa [join] using ih
        | cons next rest => simpa [join] using ih

end MockGraph.Text
