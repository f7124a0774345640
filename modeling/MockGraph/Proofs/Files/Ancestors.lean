import MockGraph.Files.Path
import MockGraph.Proofs.Text.Pieces
import Mathlib.Data.List.DropRight

/-!
# `Proofs/Files/Ancestors`: the parents of a path, one after the other

`FilePath.ancestors` collects the parents of a path with a bound on their number. The bound is never
reached: a parent has fewer components than its path (`parent_weight`), so the list holds the path
and all of its parents, each as far from the path as its place in the list says
(`ancestors_getElem?`).
-/

set_option autoImplicit false

namespace MockGraph.FilePath

/-- The path that is `level` steps above another one. -/
def ancestor? (path : FilePath) : Nat → Option FilePath
  | 0 => some path
  | level + 1 => path.parent?.bind fun parent => parent.ancestor? level

/-! ## 1. Paths made of components -/

/-- How many steps up a path can take: its components, where an empty beginning counts for nothing.
-/
def Parts.weight (parts : Parts) : Nat := parts.rest.length + if parts.head = [] then 0 else 1

variable {head : List Char} {rest : List (List Char)} {path parent : FilePath}

theorem parts_of_pieces (h : Text.pieces '/' path.toList = head :: rest) :
    path.parts = ⟨head, rest.reverse.dropWhile isIdle⟩ := by
  rw [parts, h]

/-- Every path starts with some component, and no component has a slash in it. -/
theorem exists_pieces (path : FilePath) :
    ∃ head rest, Text.pieces '/' path.toList = head :: rest ∧
      ∀ piece ∈ head :: rest, '/' ∉ piece := by
  cases h : Text.pieces '/' path.toList with
  | nil => exact absurd h (Text.pieces_ne_nil _ _)
  | cons head rest => exact ⟨head, rest, rfl, fun piece hp => Text.not_mem_of_mem_pieces (h ▸ hp)⟩

/-- No component of a path has a slash in it. -/
theorem not_mem_of_mem_parts (path : FilePath) :
    ∀ piece ∈ path.parts.head :: path.parts.rest, '/' ∉ piece := by
  obtain ⟨head, rest, hpieces, hslash⟩ := exists_pieces path
  obtain ⟨hhead, hrest⟩ := List.forall_mem_cons.mp hslash
  rw [parts_of_pieces hpieces]
  refine List.forall_mem_cons.mpr ⟨hhead, fun piece hp => hrest piece ?_⟩
  exact List.mem_reverse.mp ((List.dropWhile_sublist isIdle).subset hp)

/-- A path that is put together from components is cut into those. -/
theorem pieces_path (h : ∀ piece ∈ head :: rest, '/' ∉ piece) :
    Text.pieces '/' (Parts.path ⟨head, rest⟩).toList = head :: rest.reverse := by
  rw [Parts.path, String.toList_ofList]
  exact Text.pieces_join (by simpa using h)

theorem parts_path (h : ∀ piece ∈ head :: rest, '/' ∉ piece)
    (hidle : rest.dropWhile isIdle = rest) : (Parts.path ⟨head, rest⟩).parts = ⟨head, rest⟩ := by
  rw [parts_of_pieces (pieces_path h), List.reverse_reverse, hidle]

theorem parts_ofList (h : '/' ∉ head) : FilePath.parts (String.ofList head) = ⟨head, []⟩ :=
  parts_of_pieces (by rw [String.toList_ofList, Text.pieces_of_not_mem h])

/-- An absolute path begins with an empty component. -/
theorem head_of_isAbsolute (h : path.isAbsolute = true) : path.parts.head = [] := by
  simp only [isAbsolute, decide_eq_true_eq] at h
  obtain ⟨cs, hcs⟩ := List.head?_eq_some_iff.mp h
  simp [parts, hcs, Text.pieces]

/-! ## 2. Fewer components above -/

/-- Above a path of several components are the same ones without the last. Above a single one is
nothing. -/
theorem parts_parent (h : path.parent? = some parent) :
    (path.parts.rest = [] ∧ path.parts.head ≠ [] ∧ parent.parts = ⟨[], []⟩) ∨
      ∃ last above, path.parts.rest = last :: above ∧
        parent.parts = ⟨path.parts.head, above.dropWhile isIdle⟩ := by
  obtain ⟨hhead, hslash⟩ := List.forall_mem_cons.mp (not_mem_of_mem_parts path)
  unfold parent? at h
  cases hrest : path.parts.rest with
  | nil =>
    left
    simp only [hrest] at h
    by_cases hempty : path.parts.head = []
    · simp [hempty] at h
    · rw [if_neg hempty, Option.some.injEq] at h
      subst h
      exact ⟨rfl, hempty, rfl⟩
  | cons last above =>
    refine .inr ⟨last, above, rfl, ?_⟩
    simp only [hrest] at h
    cases habove : above.dropWhile isIdle with
    | nil =>
      simp only [habove, Option.some.injEq] at h
      subst h
      by_cases habsolute : path.isAbsolute = true
      · rw [if_pos habsolute, head_of_isAbsolute habsolute]
        rfl
      · rw [if_neg habsolute, parts_ofList hhead]
    | cons next outer =>
      simp only [habove, Option.some.injEq] at h
      subst h
      have hsub : (next :: outer).Sublist above := habove ▸ List.dropWhile_sublist isIdle
      apply parts_path
      · refine List.forall_mem_cons.mpr ⟨hhead, fun piece hp => hslash piece ?_⟩
        rw [hrest]
        exact List.mem_cons_of_mem _ (hsub.subset hp)
      · rw [← habove]
        exact List.dropWhile_idempotent isIdle above

/-- A parent can take fewer steps up than its path. -/
theorem parent_weight (h : path.parent? = some parent) :
    parent.parts.weight < path.parts.weight := by
  rcases parts_parent h with ⟨-, hhead, hparent⟩ | ⟨last, above, hrest, hparent⟩
  · simp [hparent, Parts.weight, hhead]
  · have hlength := (List.dropWhile_sublist isIdle (l := above)).length_le
    simp only [hparent, Parts.weight, hrest, List.length_cons]
    omega

/-- A path can take no more steps up than it has components. -/
theorem weight_le_depth (path : FilePath) : path.parts.weight ≤ path.depth := by
  obtain ⟨head, rest, hpieces, -⟩ := exists_pieces path
  have hlength := (List.dropWhile_sublist isIdle (l := rest.reverse)).length_le
  rw [parts_of_pieces hpieces, Parts.weight, depth, hpieces]
  rw [List.length_reverse] at hlength
  simp only [List.length_cons]
  split <;> omega

/-! ## 3. All the parents -/

theorem ancestorsUpTo_getElem? {fuel : Nat} (h : path.parts.weight < fuel) (level : Nat) :
    (ancestorsUpTo fuel path)[level]? = path.ancestor? level := by
  induction fuel generalizing path level with
  | zero => omega
  | succ fuel ih =>
    cases level with
    | zero => rfl
    | succ level =>
      rw [ancestorsUpTo, ancestor?, List.getElem?_cons_succ]
      cases hparent : path.parent? with
      | none => rfl
      | some parent =>
        have hlt := parent_weight hparent
        exact ih (by omega) level

/-- The parents of a path are all there, the nearest first. -/
theorem ancestors_getElem? (path : FilePath) (level : Nat) :
    path.ancestors[level]? = path.ancestor? level :=
  ancestorsUpTo_getElem? (Nat.lt_succ_of_le (weight_le_depth path)) level

theorem ancestors_of_parent (h : path.parent? = some parent) :
    path.ancestors = path :: parent.ancestors := by
  apply List.ext_getElem?
  intro level
  cases level with
  | zero => rw [ancestors_getElem?, ancestor?, List.getElem?_cons_zero]
  | succ level =>
    rw [ancestors_getElem?, ancestor?, h, Option.bind_some, List.getElem?_cons_succ,
      ancestors_getElem?]

theorem ancestors_of_parent_none (h : path.parent? = none) : path.ancestors = [path] := by
  rw [ancestors, ancestorsUpTo, h]

/-- What holds of a path as soon as it holds of its parent holds of every path. -/
@[elab_as_elim]
theorem induction_outwards {motive : FilePath → Prop}
    (step : ∀ path : FilePath, (∀ parent, path.parent? = some parent → motive parent) →
      motive path) (path : FilePath) : motive path :=
  step path fun parent h =>
    have := parent_weight h
    induction_outwards step parent
termination_by path.parts.weight

/-- What is handed on from a path to its parent holds of all its ancestors. -/
theorem forall_ancestors {P : FilePath → Prop}
    (hparent : ∀ path parent : FilePath, path.parent? = some parent → P path → P parent)
    (h : P path) : ∀ ancestor ∈ path.ancestors, P ancestor := by
  induction path using induction_outwards with
  | step path ih =>
    cases hp : path.parent? with
    | none =>
      rw [ancestors_of_parent_none hp]
      exact List.forall_mem_singleton.mpr h
    | some parent =>
      rw [ancestors_of_parent hp]
      exact List.forall_mem_cons.mpr ⟨h, ih parent hp (hparent path parent hp h)⟩

end MockGraph.FilePath
