import MockGraph.Text.Pieces
import Mathlib.Data.List.Basic

/-!
# `Proofs/Text/Pieces`: cutting and joining undo each other

`Text.join_pieces` says that cutting loses nothing. Here is the other way round: pieces that are
free of the separator come out of the joined text as they went in (`pieces_joined`, `pieces_join`),
and all pieces that come out are free of it (`not_mem_of_mem_pieces`).
-/

set_option autoImplicit false

namespace MockGraph.Text

variable {separator c : Char} {cs piece : List Char} {rest : List (List Char)}

theorem pieces_cons_of_ne (hc : c ≠ separator) (h : pieces separator cs = piece :: rest) :
    pieces separator (c :: cs) = (c :: piece) :: rest := by
  rw [pieces, if_neg hc, h]

/-- Pieces are free of the separator. -/
theorem not_mem_of_mem_pieces (h : piece ∈ pieces separator cs) : separator ∉ piece := by
  induction cs generalizing piece with
  | nil =>
    rw [pieces, List.mem_singleton] at h
    simp [h]
  | cons c cs ih =>
    by_cases hc : c = separator
    · rw [pieces, if_pos hc] at h
      rcases List.mem_cons.mp h with rfl | h
      · simp
      · exact ih h
    · cases hp : pieces separator cs with
      | nil => exact absurd hp (pieces_ne_nil separator cs)
      | cons first rest =>
        rw [pieces_cons_of_ne hc hp] at h
        rw [hp] at ih
        rcases List.mem_cons.mp h with rfl | h
        · have hfirst : separator ∉ first := ih List.mem_cons_self
          simp [hfirst, Ne.symm hc]
        · exact ih (List.mem_cons_of_mem _ h)

theorem pieces_append (hp : separator ∉ piece) (h : pieces separator cs = [] :: rest) :
    pieces separator (piece ++ cs) = piece :: rest := by
  induction piece with
  | nil => exact h
  | cons c piece ih =>
    have hc : c ≠ separator := by
      rintro rfl
      exact hp List.mem_cons_self
    exact pieces_cons_of_ne hc (ih fun hm => hp (List.mem_cons_of_mem _ hm))

/-- Cutting undoes joining: what is free of the separator comes out as it went in. -/
theorem pieces_joined (hp : separator ∉ piece) (hr : ∀ other ∈ rest, separator ∉ other) :
    pieces separator (piece ++ rest.flatMap (separator :: ·)) = piece :: rest := by
  induction rest generalizing piece with
  | nil => exact pieces_append hp rfl
  | cons first rest ih =>
    have hcut : pieces separator (first ++ rest.flatMap (separator :: ·)) = first :: rest :=
      ih (hr first List.mem_cons_self) fun other ho => hr other (List.mem_cons_of_mem _ ho)
    apply pieces_append hp
    rw [List.flatMap_cons, List.cons_append, pieces, if_pos rfl, hcut]

theorem pieces_of_not_mem (hp : separator ∉ piece) : pieces separator piece = [piece] := by
  have h : pieces separator (piece ++ List.flatMap (separator :: ·) []) = [piece] :=
    pieces_joined hp (by simp)
  rwa [List.flatMap_nil, List.append_nil] at h

theorem join_cons (separator : Char) (piece : List Char) (rest : List (List Char)) :
    join separator (piece :: rest) = piece ++ rest.flatMap (separator :: ·) := by
  induction rest generalizing piece with
  | nil => rw [List.flatMap_nil, List.append_nil, join]
  | cons next rest ih => rw [join, ih, List.flatMap_cons, List.cons_append]; simp

theorem mem_join (hc : c ≠ separator) (cuts : List (List Char)) :
    c ∈ join separator cuts ↔ ∃ cut ∈ cuts, c ∈ cut := by
  cases cuts with
  | nil => simp [join]
  | cons first cuts => simp [join_cons, List.mem_flatMap, hc]

/-- What follows the last separator is the last piece. -/
theorem pieces_snoc (cs : List Char) (hp : separator ∉ piece) :
    pieces separator (cs ++ separator :: piece) = pieces separator cs ++ [piece] := by
  induction cs with
  | nil =>
    have hcut : pieces separator (separator :: piece) = [] :: pieces separator piece := if_pos rfl
    rw [List.nil_append, hcut, pieces_of_not_mem hp]
    rfl
  | cons c cs ih =>
    by_cases hc : c = separator
    · rw [List.cons_append, pieces, if_pos hc, ih, pieces, if_pos hc]
      rfl
    · cases hcut : pieces separator cs with
      | nil => exact absurd hcut (pieces_ne_nil separator cs)
      | cons first rest =>
        rw [hcut, List.cons_append] at ih
        rw [List.cons_append, pieces_cons_of_ne hc ih, pieces_cons_of_ne hc hcut]
        rfl

theorem pieces_join (h : ∀ other ∈ piece :: rest, separator ∉ other) :
    pieces separator (join separator (piece :: rest)) = piece :: rest := by
  rw [join_cons]
  exact pieces_joined (h piece List.mem_cons_self) fun other ho =>
    h other (List.mem_cons_of_mem _ ho)

end MockGraph.Text
