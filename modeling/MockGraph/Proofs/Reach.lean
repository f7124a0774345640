import MockGraph.Reach
import Mathlib.Logic.Relation

/-!
# `Proofs/Reach`: what the two searches in a graph find

What `reach` finds holds the nodes that it starts with and is closed under successors, as long as
these are among the given nodes. `strays` looks at paths that enter no node twice, and that is enough
to find every cycle: where it finds nothing, the start does not reach itself (`not_cyclic_of_strays`).
-/

set_option autoImplicit false

namespace MockGraph

open Relation

section Reach

variable {α : Type} [DecidableEq α] {next : α → List α}

/-- `reach` finds what it is asked to start with. -/
theorem mem_reach_of_mem {nodes pending : List α} {a : α} (hp : a ∈ pending) (hn : a ∈ nodes) :
    a ∈ reach next nodes pending := by
  fun_induction reach next nodes pending with
  | case1 => cases hp
  | case2 nodes b pending hb ih =>
    by_cases hab : a = b
    · exact hab ▸ List.mem_cons_self
    · refine List.mem_cons_of_mem _ (ih ?_ ((List.mem_erase_of_ne hab).mpr hn))
      exact List.mem_append_right _ (List.mem_of_ne_of_mem hab hp)
  | case3 nodes b pending hb ih =>
    refine ih ?_ hn
    rcases List.mem_cons.mp hp with rfl | hp
    · exact absurd hn hb
    · exact hp

/-- It goes on with what it has found. -/
theorem mem_reach_of_next {nodes pending : List α} {a b : α} (ha : a ∈ reach next nodes pending)
    (hab : b ∈ next a) (hb : b ∈ nodes) : b ∈ reach next nodes pending := by
  fun_induction reach next nodes pending with
  | case1 => cases ha
  | case2 nodes c pending hc ih =>
    by_cases hbc : b = c
    · exact hbc ▸ List.mem_cons_self
    have hleft : b ∈ nodes.erase c := (List.mem_erase_of_ne hbc).mpr hb
    rcases List.mem_cons.mp ha with rfl | ha
    · exact List.mem_cons_of_mem _ (mem_reach_of_mem (List.mem_append_left _ hab) hleft)
    · exact List.mem_cons_of_mem _ (ih ha hleft)
  | case3 nodes c pending hc ih => exact ih ha hb

/-! ## Cycles -/

/-- A way to a node that may lead through `a` leads there without `a`, or does so from a successor of
`a`: the one after the last visit. -/
theorem last_visit {r : α → α → Prop} (a : α) {start target : α} (h : ReflTransGen r start target) :
    ReflTransGen (fun x y => r x y ∧ x ≠ a) start target ∨
      ∃ b, r a b ∧ ReflTransGen (fun x y => r x y ∧ x ≠ a) b target := by
  induction h using ReflTransGen.head_induction_on with
  | refl => exact .inl .refl
  | @head x y hstep _ ih =>
    rcases ih with hy | hlater
    · by_cases hx : x = a
      · exact .inr ⟨y, hx ▸ hstep, hy⟩
      · exact .inl (hy.head ⟨hstep, hx⟩)
    · exact .inr hlater

/-- A search that finds nothing from `a` has seen every way from there to its start that leaves none
of the nodes on the path behind it. -/
theorem not_reaches_of_straysFrom {start : α} {left : Nat} {path : List α} {a : α}
    (h : straysFrom next id (decide <| · = start) left path a = false) (hs : start ∈ path) :
    ¬ ReflTransGen (fun x y => y ∈ next x ∧ x ∉ path) a start := by
  intro hr
  induction left generalizing path a with
  | zero =>
    by_cases ha : a ∈ path
    · have hne : a ≠ start := by simpa [straysFrom, ha] using h
      rcases hr.cases_head with rfl | ⟨b, hstep, -⟩
      · exact hne rfl
      · exact hstep.2 ha
    · simp [straysFrom, ha] at h
  | succ left ih =>
    by_cases ha : a ∈ path
    · have hne : a ≠ start := by simpa [straysFrom, ha] using h
      rcases hr.cases_head with rfl | ⟨b, hstep, -⟩
      · exact hne rfl
      · exact hstep.2 ha
    · have hne : a ≠ start := fun hsame => ha (hsame ▸ hs)
      simp only [straysFrom, id_eq, ha, if_false, List.any_eq_false, Bool.not_eq_true] at h
      -- From here on the search leaves `a` out, so the way is taken up after its last visit to `a`.
      rcases last_visit a hr with haway | ⟨b, hstep, hlater⟩
      · rcases haway.cases_head with hsame | ⟨b, hstep, -⟩
        · exact hne hsame
        · exact hstep.2 rfl
      · have haway : ∀ x y, (y ∈ next x ∧ x ∉ path) ∧ x ≠ a → y ∈ next x ∧ x ∉ a :: path := by
          rintro x y ⟨⟨hxy, hx⟩, hxa⟩
          exact ⟨hxy, by simp [hxa, hx]⟩
        exact ih (h b hstep.1) (List.mem_cons_of_mem _ hs) (ReflTransGen.mono haway _ _ hlater)

/-- A node from which nothing strays does not reach itself. -/
theorem not_cyclic_of_strays {limit : Nat} {start : α} (h : strays next id limit start = false) :
    ¬ TransGen (fun a b => b ∈ next a) start start := by
  intro hc
  simp only [strays, id_eq, List.any_eq_false, Bool.not_eq_true] at h
  obtain ⟨a, hfirst, hrest⟩ := TransGen.head'_iff.mp hc
  have hno : ∀ b ∈ next start,
      ¬ ReflTransGen (fun x y => y ∈ next x ∧ x ≠ start) b start := by
    intro b hb hr
    have haway : ∀ x y, y ∈ next x ∧ x ≠ start → y ∈ next x ∧ x ∉ [start] := by
      rintro x y ⟨hxy, hx⟩
      exact ⟨hxy, by simp [hx]⟩
    exact not_reaches_of_straysFrom (h b hb) List.mem_cons_self (ReflTransGen.mono haway _ _ hr)
  rcases last_visit start hrest with haway | ⟨b, hstep, hlater⟩
  · exact hno a hfirst haway
  · exact hno b hstep hlater

end Reach

end MockGraph
