import MockGraph.Proofs.Json.Assignment

/-!
# `Proofs/Json/Domain`: which assignments take effect

An assignment goes along its path from level to level, where a level that is missing counts as a null.
`Stops` lists what is said to stop it there: a scalar, a key on a list, or an item that needs more
than `maxPadding` nulls in front of it.

Main statement, `assign_applied_iff`: an assignment takes effect exactly if no level stops it and no
item needs *exactly* `maxPadding` nulls. So the list of reasons is complete but for its boundary. The
limit is compared with the number of places that a list grows by, and the item on the path fills one
of them. Nothing stops item 4096 of an empty list, and the assignment is dropped
(`assign_dropped_at_limit`).

Positions are natural numbers here. The same comparison in words of 64 bits never leaves the words,
and decides alike (`assignInWords_eq`).
-/

set_option autoImplicit false

namespace MockGraph.Json

/-! ## 1. Levels -/

/-- What an assignment finds after the first steps of its path. -/
def level (x : Json) (before : Path) : Json := (x.get? before).getD null

/-- Somewhere on the way along a path, the level and the next step are so related. -/
def OnWay (rel : Json → Step → Prop) (x : Json) (path : Path) : Prop :=
  ∃ before step rest, path = before ++ step :: rest ∧ rel (x.level before) step

/-- How many items there are on a level that is a list or becomes one. -/
def length? : Json → Option Nat
  | .null => some 0
  | .array items => some items.length
  | _ => none

/-- What stops an assignment. -/
inductive Stops : Json → Step → Prop where
  | bool (value : Bool) (step : Step) : Stops (.bool value) step
  | number (value : Number) (step : Step) : Stops (.number value) step
  | string (value : String) (step : Step) : Stops (.string value) step
  | key (items : List Json) (name : String) : Stops (.array items) (.key name)
  | padding {x : Json} {i : UInt64} {n : Nat} (hn : x.length? = some n) (hi : n ≤ i.toNat)
      (h : maxPadding < i.toNat - n) : Stops x (.index i)

/-- An item with `maxPadding` missing items in front of it. -/
def AtLimit (x : Json) (step : Step) : Prop :=
  ∃ i n, step = .index i ∧ x.length? = some n ∧ i.toNat = n + maxPadding

section Way

variable (rel rel' : Json → Step → Prop) (x : Json) (step : Step) (rest : Path)

theorem level_cons (before : Path) :
    x.level (step :: before) = ((x.child? step).getD null).level before := by
  unfold level
  rw [get?_cons]
  cases x.child? step with
  | some child => rfl
  | none =>
    -- Below a missing level everything is missing.
    cases before <;> rfl

theorem not_onWay_nil : ¬ OnWay rel x [] := by
  rintro ⟨before, step, rest, he, -⟩
  simp at he

theorem onWay_cons :
    OnWay rel x (step :: rest) ↔ rel x step ∨ OnWay rel ((x.child? step).getD null) rest := by
  constructor
  · rintro ⟨before, step', rest', he, hrel⟩
    cases before with
    | nil =>
      cases he
      exact .inl hrel
    | cons first before =>
      cases he
      rw [level_cons] at hrel
      exact .inr ⟨before, step', rest', rfl, hrel⟩
  · rintro (hrel | ⟨before, step', rest', rfl, hrel⟩)
    · exact ⟨[], step, rest, rfl, hrel⟩
    · refine ⟨step :: before, step', rest', rfl, ?_⟩
      rw [level_cons]
      exact hrel

theorem onWay_or (path : Path) :
    OnWay (fun y step => rel y step ∨ rel' y step) x path ↔ OnWay rel x path ∨ OnWay rel' x path := by
  constructor
  · rintro ⟨before, step, rest, he, hrel | hrel⟩
    · exact .inl ⟨before, step, rest, he, hrel⟩
    · exact .inr ⟨before, step, rest, he, hrel⟩
  · rintro (⟨before, step, rest, he, hrel⟩ | ⟨before, step, rest, he, hrel⟩)
    · exact ⟨before, step, rest, he, .inl hrel⟩
    · exact ⟨before, step, rest, he, .inr hrel⟩

end Way

/-! ## 2. Refusals -/

section Refusals

variable {x v : Json} {step : Step} {path : Path}

theorem refuses_index {i : UInt64} {n : Nat} (hn : x.length? = some n) :
    x.refuses (.index i) = decide (maxPadding < i.toNat + 1 - n) := by
  cases x with
  | null =>
    cases hn
    rfl
  | array items =>
    cases hn
    rfl
  | _ => cases hn

/-- A level refuses what stops an assignment, and an item at the limit. -/
theorem refuses_iff : x.refuses step = true ↔ x.Stops step ∨ x.AtLimit step := by
  constructor
  · intro hr
    have hindex : ∀ i n, step = .index i → x.length? = some n → x.Stops step ∨ x.AtLimit step := by
      rintro i n rfl hn
      rw [refuses_index hn, decide_eq_true_iff] at hr
      by_cases hlimit : i.toNat = n + maxPadding
      · exact .inr ⟨i, n, rfl, hn, hlimit⟩
      · exact .inl (.padding hn (by omega) (by omega))
    cases x with
    | object members => cases hr
    | bool value => exact .inl (.bool value step)
    | number value => exact .inl (.number value step)
    | string value => exact .inl (.string value step)
    | array items =>
      cases step with
      | key name => exact .inl (.key items name)
      | index i => exact hindex i _ rfl rfl
    | null =>
      cases step with
      | key name => cases hr
      | index i => exact hindex i _ rfl rfl
  · rintro (hstops | ⟨i, n, rfl, hn, hlimit⟩)
    · cases hstops with
      | bool | number | string | key => rfl
      | padding hn hi h =>
        rw [refuses_index hn, decide_eq_true_iff]
        omega
    · rw [refuses_index hn, decide_eq_true_iff]
      omega

/-- An assignment is dropped if a level on its way refuses the next step, and only then. -/
theorem applied_eq_false_iff :
    (assignAt path x v).applied = false ↔ OnWay (fun y step => y.refuses step = true) x path := by
  induction path generalizing x with
  | nil => exact ⟨nofun, fun h => absurd h (not_onWay_nil _ x)⟩
  | cons step rest ih =>
    rw [onWay_cons, ← ih]
    cases hr : x.refuses step with
    | true => simp [assignAt_of_refuses _ _ _ _ hr]
    | false => simp [assignAt_of_not_refuses _ _ _ _ hr]

/-- What was dropped cannot be read back. -/
theorem get?_of_dropped (h : (assignAt path x v).applied = false) :
    (assignAt path x v).value.get? path = none := by
  induction path generalizing x with
  | nil => cases h
  | cons step rest ih =>
    cases hr : x.refuses step with
    | true =>
      rw [assignAt_of_refuses _ _ _ _ hr, get?_cons]
      cases hc : (x.opened step).child? step with
      | none => rfl
      | some child =>
        have hnot := refuses_of_child? hc
        rw [refuses_opened, hr] at hnot
        cases hnot
    | false =>
      rw [assignAt_of_not_refuses _ _ _ _ hr] at h ⊢
      rw [get?_cons, child?_put hr, Option.bind_some]
      exact ih h

theorem applied_iff_get? :
    (assignAt path x v).applied = true ↔ (assignAt path x v).value.get? path = some v := by
  constructor
  · exact get?_assignAt
  · intro hread
    cases happlied : (assignAt path x v).applied with
    | true => rfl
    | false =>
      rw [get?_of_dropped happlied] at hread
      cases hread

end Refusals

/-! ## 3. Words of 64 bits -/

/-- A sum, if it is a word. -/
def checkedAdd (a b : UInt64) : Option UInt64 :=
  if a.toNat + b.toNat < UInt64.size then some (a + b) else none

/-- A difference, if it is a word. -/
def checkedSub (a b : UInt64) : Option UInt64 := if b ≤ a then some (a - b) else none

/-- Whether an item is too far behind a list of `length` items that ends before it. The sum is
guarded: where it is no word, the item is too far. The difference is not, and `none` says that it is
no word. -/
def tooFar? (length i : UInt64) : Option Bool :=
  match checkedAdd i 1 with
  | none => some true
  | some padded => (checkedSub padded length).map fun missing => maxPadding < missing.toNat

/-- Whether a level refuses a step, where lengths and positions are words. -/
def refusesInWords (x : Json) (step : Step) : Option Bool :=
  match x.length?, step with
  | some n, .index i => if n ≤ i.toNat then tooFar? (UInt64.ofNat n) i else some false
  | _, step => some (x.refuses step)

/-- An assignment that decides in words; `none` if an operation left the words. -/
def assignInWords : Path → Json → Json → Option Assigned
  | [], _, value => some ⟨value, true⟩
  | step :: rest, x, value => do
    if ← x.refusesInWords step then return ⟨x.opened step, false⟩
    let child ← assignInWords rest ((x.child? step).getD null) value
    return ⟨x.put step child.value, child.applied⟩

/-- The lists of a value have fewer items than half of the words, as all have that can be stored. -/
def Addressable (x : Json) : Prop :=
  ∀ path items, x.get? path = some (.array items) → items.length < UInt64.size / 2

section Words

variable {x : Json}

theorem Addressable.child (h : x.Addressable) (step : Step) :
    ((x.child? step).getD null).Addressable := by
  intro path items hitems
  refine h (step :: path) items ?_
  rw [get?_cons]
  cases hc : x.child? step with
  | some child =>
    rw [hc] at hitems
    exact hitems
  | none =>
    rw [hc] at hitems
    cases path <;> cases hitems

theorem Addressable.length_lt (h : x.Addressable) {n : Nat} (hn : x.length? = some n) :
    n < UInt64.size / 2 := by
  cases x with
  | null =>
    cases hn
    decide
  | array items =>
    cases hn
    exact h [] items rfl
  | _ => cases hn

/-- Far and near are told apart without a sum or a difference that is no word. -/
theorem tooFar?_eq {n : Nat} {i : UInt64} (hn : n < UInt64.size / 2) (hi : n ≤ i.toNat) :
    tooFar? (UInt64.ofNat n) i = some (decide (maxPadding < i.toNat + 1 - n)) := by
  have hsize : UInt64.size = 18446744073709551616 := rfl
  have hone : (1 : UInt64).toNat = 1 := rfl
  have hlength : (UInt64.ofNat n).toNat = n := UInt64.toNat_ofNat_of_lt' (by omega)
  unfold tooFar? checkedAdd
  rw [hone]
  by_cases hsum : i.toNat + 1 < UInt64.size
  · have hpadded : (i + 1).toNat = i.toNat + 1 := by
      rw [UInt64.toNat_add]
      exact Nat.mod_eq_of_lt hsum
    have hle : UInt64.ofNat n ≤ i + 1 := by
      rw [UInt64.le_iff_toNat_le, hlength, hpadded]
      omega
    have hmissing : (i + 1 - UInt64.ofNat n).toNat = i.toNat + 1 - n := by
      rw [UInt64.toNat_sub_of_le _ _ hle, hpadded, hlength]
    rw [if_pos hsum]
    simp [checkedSub, hle, hmissing]
  · -- The last of all positions is too far behind every list that there can be.
    have hfar : maxPadding < i.toNat + 1 - n := by
      unfold maxPadding
      omega
    rw [if_neg hsum]
    simp [hfar]

theorem refusesInWords_eq (h : x.Addressable) (step : Step) :
    x.refusesInWords step = some (x.refuses step) := by
  unfold refusesInWords
  cases step with
  | key name => cases x.length? <;> rfl
  | index i =>
    cases hn : x.length? with
    | none => rfl
    | some n =>
      rw [refuses_index hn]
      show (if n ≤ i.toNat then _ else _) = _
      by_cases hi : n ≤ i.toNat
      · rw [if_pos hi]
        exact tooFar?_eq (h.length_lt hn) hi
      · have hnear : ¬ maxPadding < i.toNat + 1 - n := by omega
        rw [if_neg hi, decide_eq_false hnear]

/-- Words are enough: no operation leaves them, and the outcome is the same. -/
theorem assignInWords_eq (h : x.Addressable) (path : Path) (v : Json) :
    assignInWords path x v = some (assignAt path x v) := by
  induction path generalizing x with
  | nil => rfl
  | cons step rest ih =>
    rw [assignInWords, refusesInWords_eq h]
    cases hr : x.refuses step with
    | true =>
      rw [assignAt_of_refuses _ _ _ _ hr]
      rfl
    | false =>
      rw [assignAt_of_not_refuses _ _ _ _ hr, ← Option.some.injEq]
      simp [ih (h.child step)]

end Words

/-! ## 4. The domain -/

/-- **Which assignments take effect.** Those whose value can be read back; those that no level stops
and that ask nowhere for an item with exactly `maxPadding` missing items in front of it. To decide it
takes no number beyond 64 bits, however large the indices are. -/
theorem assign_applied_iff (x : Json) (step : Step) (rest : Path) (v : Json) :
    ((assignAt (step :: rest) x v).applied = true ↔
      (x.assign (step :: rest) v).get? (step :: rest) = some v) ∧
    ((assignAt (step :: rest) x v).applied = true ↔
      ¬ OnWay Stops x (step :: rest) ∧ ¬ OnWay AtLimit x (step :: rest)) ∧
    (x.Addressable → assignInWords (step :: rest) x v = some (assignAt (step :: rest) x v)) := by
  refine ⟨applied_iff_get?, ?_, fun h => assignInWords_eq h _ v⟩
  have hway : (assignAt (step :: rest) x v).applied = false ↔
      OnWay Stops x (step :: rest) ∨ OnWay AtLimit x (step :: rest) := by
    rw [applied_eq_false_iff, ← onWay_or]
    simp only [refuses_iff]
  rw [← not_or, ← hway, Bool.not_eq_false]

theorem addressable_nil : (array []).Addressable := by
  rintro (_ | ⟨_ | _, path⟩) items h
  · cases h
    decide
  · cases h
  · cases h

/-- The last of all positions is refused by words alone, without a sum that wraps around. -/
theorem assign_applied_iff_last :
    let path : Path := [.index 18446744073709551615]
    (array []).Addressable ∧ OnWay Stops (array []) path ∧
    assignInWords path (array []) .null = some ⟨array [], false⟩ := by
  intro path
  have hdomain := assign_applied_iff (array []) (.index 18446744073709551615) [] .null
  have hstops : OnWay Stops (array []) path :=
    ⟨[], _, [], rfl, .padding rfl (Nat.zero_le _) (by decide)⟩
  refine ⟨addressable_nil, hstops, ?_⟩
  rw [hdomain.2.2 addressable_nil]
  rfl

/-- Nothing stops an item with 4096 missing items in front of it, but its assignment is dropped. -/
theorem assign_dropped_at_limit :
    let x : Json := .object [("scores", .array [])]
    let path : Path := [.key "scores", .index 4096]
    ¬ OnWay Stops x path ∧ x.assign path .null = x ∧
    ¬ ((assignAt path x .null).applied = true ↔ ¬ OnWay Stops x path) := by
  intro x path
  have hway : ¬ OnWay Stops x path := by
    have hopen : x.refuses (.key "scores") = false := rfl
    have hlevel : (x.child? (.key "scores")).getD null = array [] := rfl
    rw [onWay_cons, onWay_cons, hlevel]
    rintro (hobject | hitem | hend)
    · rw [refuses_iff.mpr (.inl hobject)] at hopen
      cases hopen
    · cases hitem with
      | padding hn hi h =>
        cases hn
        exact absurd h (by decide)
    · exact not_onWay_nil _ _ hend
  have hdropped : (assignAt path x .null).applied = false := rfl
  refine ⟨hway, rfl, fun hclaim => ?_⟩
  rw [hclaim.mpr hway] at hdropped
  cases hdropped

end MockGraph.Json
