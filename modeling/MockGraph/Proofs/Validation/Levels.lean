import MockGraph.Proofs.Reach
import MockGraph.Validation.Document

/-!
# `Proofs/Validation/Levels`: fields that are collected level by level

`fieldsAt` collects the fields of selections and goes a bounded number of levels into the fragments
among them. `Levels` says how many levels there are. If the bound is not below that number it makes no
difference (`fieldsAt_of_levels`), and if no fragment spreads itself `depthBound` is not below it
(`levels_of_acyclic`): on the way down a fragment is entered at most once, so all that is entered
together has no more selections than the document.

Nor does it matter which fragments a document has besides those that are spread (`fieldsAt_congr`).
-/

set_option autoImplicit false

namespace MockGraph

open Syntax Relation

/-! ## 1. Parts of selections -/

section Parts

variable {selection : Selection} {set : List Selection} {name : Name}

theorem mem_spreadsIn (hm : selection ∈ set) (hn : name ∈ selection.spreads) :
    name ∈ Selection.spreadsIn set := by
  induction set with
  | nil => cases hm
  | cons first rest ih =>
    rw [Selection.spreadsIn]
    rcases List.mem_cons.mp hm with rfl | hm
    · exact List.mem_append_left _ hn
    · exact List.mem_append_right _ (ih hm)

theorem count_le_countAll (hm : selection ∈ set) : selection.count ≤ Selection.countAll set := by
  induction set with
  | nil => cases hm
  | cons first rest ih =>
    rw [Selection.countAll]
    rcases List.mem_cons.mp hm with rfl | hm
    · exact Nat.le_add_right _ _
    · exact Nat.le_add_left_of_le (ih hm)

theorem countAll_append (first rest : List Selection) :
    Selection.countAll (first ++ rest) = Selection.countAll first + Selection.countAll rest := by
  induction first with
  | nil => simp [Selection.countAll]
  | cons selection first ih => simp [Selection.countAll, ih, Nat.add_assoc]

theorem count_pos (selection : Selection) : 0 < selection.count := by
  cases selection <;> rw [Selection.count] <;> omega

theorem eq_nil_of_countAll (h : Selection.countAll set = 0) : set = [] := by
  cases set with
  | nil => rfl
  | cons selection rest =>
    have := count_pos selection
    rw [Selection.countAll] at h
    omega

end Parts

/-! ## 2. The next level -/

section InnerSets

variable {fragments fragments' : List Fragment} {spread : List Name}
  {here : List (Name × Selection)}

/-- The next level consists of inline fragments and of fragments that are spread. -/
theorem mem_innerSets {entry : Name × List Selection}
    (h : entry ∈ (innerSets fragments spread here).1) :
    (∃ outer condition directives nested,
      (outer, Selection.inline condition directives nested) ∈ here ∧
        entry = (condition.getD outer, nested)) ∨
    ∃ outer name directives fragment, (outer, Selection.spread name directives) ∈ here ∧
      fragmentNamed? fragments name = some fragment ∧
      entry = (fragment.typeCondition, fragment.selections) := by
  induction here generalizing spread with
  | nil => cases h
  | cons first rest ih =>
    have hlater : ∀ {spread}, entry ∈ (innerSets fragments spread rest).1 →
        (∃ outer condition directives nested,
          (outer, Selection.inline condition directives nested) ∈ first :: rest ∧
            entry = (condition.getD outer, nested)) ∨
        ∃ outer name directives fragment,
          (outer, Selection.spread name directives) ∈ first :: rest ∧
            fragmentNamed? fragments name = some fragment ∧
            entry = (fragment.typeCondition, fragment.selections) := by
      intro spread hm
      rcases ih hm with ⟨outer, condition, directives, nested, hm, he⟩ |
          ⟨outer, name, directives, fragment, hm, hf, he⟩
      · exact .inl ⟨outer, condition, directives, nested, List.mem_cons_of_mem _ hm, he⟩
      · exact .inr ⟨outer, name, directives, fragment, List.mem_cons_of_mem _ hm, hf, he⟩
    obtain ⟨outer, selection⟩ := first
    cases selection with
    | field alias? name arguments directives nested => exact hlater h
    | inline condition directives nested =>
      rw [innerSets] at h
      rcases List.mem_cons.mp h with rfl | hm
      · exact .inl ⟨outer, condition, directives, nested, List.mem_cons_self, rfl⟩
      · exact hlater hm
    | spread name directives =>
      rw [innerSets] at h
      split at h
      · exact hlater h
      · cases hf : fragmentNamed? fragments name with
        | none =>
          simp only [hf] at h
          exact hlater h
        | some fragment =>
          simp only [hf] at h
          rcases List.mem_cons.mp h with rfl | hm
          · exact .inr ⟨outer, name, directives, fragment, List.mem_cons_self, hf, rfl⟩
          · exact hlater hm

theorem innerSets_congr
    (h : ∀ outer name directives, (outer, Selection.spread name directives) ∈ here →
      fragmentNamed? fragments name = fragmentNamed? fragments' name) :
    innerSets fragments spread here = innerSets fragments' spread here := by
  induction here generalizing spread with
  | nil => rfl
  | cons first rest ih =>
    have hrest : ∀ spread, innerSets fragments spread rest = innerSets fragments' spread rest :=
      fun spread => ih fun outer name directives hm => h outer name directives
        (List.mem_cons_of_mem _ hm)
    obtain ⟨outer, selection⟩ := first
    cases selection with
    | field alias? name arguments directives nested => exact hrest spread
    | inline condition directives nested => simp only [innerSets, hrest]
    | spread name directives =>
      simp only [innerSets, hrest, h outer name directives List.mem_cons_self]

end InnerSets

/-- The selections of several selection sets, each with its type. -/
def selectionsOf (sets : List (Name × List Selection)) : List (Name × Selection) :=
  sets.flatMap fun (outer, set) => set.map (outer, ·)

theorem mem_selectionsOf {sets : List (Name × List Selection)} {outer : Name}
    {selection : Selection} (h : (outer, selection) ∈ selectionsOf sets) :
    ∃ set, (outer, set) ∈ sets ∧ selection ∈ set := by
  obtain ⟨⟨found, set⟩, hm, hs⟩ := List.mem_flatMap.mp h
  obtain ⟨inner, hi, he⟩ := List.mem_map.mp hs
  cases he
  exact ⟨set, hm, hi⟩

theorem fieldsAt_nil (fragments : List Fragment) (depth : Nat) (spread : List Name) :
    fieldsAt fragments depth spread [] = [] := by
  cases depth <;> rfl

theorem fieldsAt_succ (fragments : List Fragment) (depth : Nat) (spread : List Name)
    (sets : List (Name × List Selection)) :
    fieldsAt fragments (depth + 1) spread sets =
      ((selectionsOf sets).filterMap fun (outer, selection) => occurrence? outer selection) ++
        fieldsAt fragments depth (innerSets fragments spread (selectionsOf sets)).2
          (innerSets fragments spread (selectionsOf sets)).1 := by
  cases sets with
  | nil =>
    change [] = [] ++ fieldsAt fragments depth spread []
    rw [fieldsAt_nil]
    rfl
  | cons first rest => rfl

/-! ## 3. Enough levels -/

/-- Selections have at most `depth` levels of fragments, their own level included. -/
def Levels (fragments : List Fragment) : Nat → List Selection → Prop
  | 0, set => set = []
  | depth + 1, set =>
    (∀ condition directives nested, Selection.inline condition directives nested ∈ set →
      Levels fragments depth nested) ∧
    ∀ name directives fragment, Selection.spread name directives ∈ set →
      fragmentNamed? fragments name = some fragment → Levels fragments depth fragment.selections

theorem Levels.innerSets {fragments : List Fragment} {depth : Nat} {spread : List Name}
    {sets : List (Name × List Selection)} (h : ∀ entry ∈ sets, Levels fragments (depth + 1) entry.2) :
    ∀ entry ∈ (innerSets fragments spread (selectionsOf sets)).1,
      Levels fragments depth entry.2 := by
  intro entry hm
  rcases mem_innerSets hm with ⟨outer, condition, directives, nested, hhere, rfl⟩ |
      ⟨outer, name, directives, fragment, hhere, hf, rfl⟩
  · obtain ⟨set, hset, hs⟩ := mem_selectionsOf hhere
    exact (h _ hset).1 condition directives nested hs
  · obtain ⟨set, hset, hs⟩ := mem_selectionsOf hhere
    exact (h _ hset).2 name directives fragment hs hf

/-- Beyond the last level there are no fields. -/
theorem fieldsAt_of_levels {fragments : List Fragment} {levels depth depth' : Nat}
    {sets : List (Name × List Selection)} (h : ∀ entry ∈ sets, Levels fragments levels entry.2)
    (hd : levels ≤ depth) (hd' : levels ≤ depth') (spread : List Name) :
    fieldsAt fragments depth spread sets = fieldsAt fragments depth' spread sets := by
  induction levels generalizing depth depth' spread sets with
  | zero =>
    have hnone : ∀ depth spread, fieldsAt fragments depth spread sets = [] := by
      intro depth spread
      have hempty : selectionsOf sets = [] :=
        List.flatMap_eq_nil_iff.mpr fun entry hm => by
          obtain ⟨outer, set⟩ := entry
          have hset : set = [] := h _ hm
          rw [hset]
          rfl
      cases depth with
      | zero => rfl
      | succ depth =>
        rw [fieldsAt_succ, hempty]
        exact fieldsAt_nil fragments depth spread
    rw [hnone, hnone]
  | succ levels ih =>
    obtain ⟨depth, rfl⟩ := Nat.exists_eq_add_of_le' (Nat.lt_of_lt_of_le (Nat.succ_pos _) hd)
    obtain ⟨depth', rfl⟩ := Nat.exists_eq_add_of_le' (Nat.lt_of_lt_of_le (Nat.succ_pos _) hd')
    rw [fieldsAt_succ, fieldsAt_succ]
    congr 1
    exact ih (Levels.innerSets h) (Nat.le_of_succ_le_succ hd) (Nat.le_of_succ_le_succ hd') _

/-- How many selections there are in the fragments that a path has not entered. -/
def outside (fragments : List Fragment) (path : List Name) : Nat :=
  Selection.countAll ((fragments.filter (·.name ∉ path)).flatMap (·.selections))

theorem outside_cons_le (fragments : List Fragment) (path : List Name) (name : Name) :
    outside fragments (name :: path) ≤ outside fragments path := by
  unfold outside
  induction fragments with
  | nil => exact Nat.le_refl _
  | cons fragment fragments ih =>
    by_cases hp : fragment.name ∈ path
    · simpa [hp] using ih
    · by_cases hn : fragment.name = name
      · simp [hn, hn ▸ hp, countAll_append] at ih ⊢
        omega
      · simp [hn, hp, countAll_append] at ih ⊢
        omega

/-- Entering a fragment takes its selections from those that are outside. -/
theorem outside_enter {fragments : List Fragment} {path : List Name} {name : Name}
    {fragment : Fragment} (hf : fragmentNamed? fragments name = some fragment) (hp : name ∉ path) :
    Selection.countAll fragment.selections + outside fragments (name :: path) ≤
      outside fragments path := by
  induction fragments with
  | nil => cases hf
  | cons first fragments ih =>
    by_cases hn : first.name = name
    · have hfirst : first = fragment := by simpa [fragmentNamed?, hn] using hf
      subst hfirst hn
      have hle := outside_cons_le fragments path first.name
      simp [outside, hp, countAll_append] at hle ⊢
      omega
    · have hrest : fragmentNamed? fragments name = some fragment := by
        simpa [fragmentNamed?, hn] using hf
      have hle := ih hrest
      by_cases hin : first.name ∈ path
      · simpa [outside, hin] using hle
      · simp [outside, hin, hn, countAll_append] at hle ⊢
        omega

/-- A fragment can be reached from a name through the fragments that it spreads. -/
abbrev SpreadsTo (fragments : List Fragment) : Name → Name → Prop :=
  ReflTransGen fun name inner => inner ∈ fragmentSpreads fragments name

/-- No fragment that can be reached from a name reaches itself. -/
def Acyclic (fragments : List Fragment) (name : Name) : Prop :=
  ∀ inner, SpreadsTo fragments name inner →
    ¬ TransGen (fun name inner => inner ∈ fragmentSpreads fragments name) inner inner

theorem mem_fragmentSpreads_of_named {fragments : List Fragment} {name inner : Name}
    {fragment : Fragment} (hf : fragmentNamed? fragments name = some fragment) :
    inner ∈ fragmentSpreads fragments name ↔ inner ∈ Selection.spreadsIn fragment.selections := by
  rw [fragmentSpreads, hf]
  exact List.mem_eraseDups

/-- Selections have no more levels than there are selections in them and in the fragments that are not
yet entered, if what they spread is acyclic and leads to none of those that are. -/
theorem levels_of_acyclic {fragments : List Fragment} {levels : Nat} {path : List Name}
    {set : List Selection} (hle : Selection.countAll set + outside fragments path ≤ levels)
    (hp : ∀ name ∈ Selection.spreadsIn set, ∀ inner, SpreadsTo fragments name inner → inner ∉ path)
    (ha : ∀ name ∈ Selection.spreadsIn set, Acyclic fragments name) :
    Levels fragments levels set := by
  -- Each level takes a selection from the count; to enter a fragment moves its selections from those
  -- outside to those in the set, and its name to the path.
  induction levels generalizing path set with
  | zero => exact eq_nil_of_countAll (by omega)
  | succ levels ih =>
    refine ⟨fun condition directives nested hm => ?_, fun name directives fragment hm hf => ?_⟩
    · have hcount := count_le_countAll hm
      have hnames : ∀ name ∈ Selection.spreadsIn nested, name ∈ Selection.spreadsIn set :=
        fun name hn => mem_spreadsIn hm (by rwa [Selection.spreads])
      rw [Selection.count] at hcount
      exact ih (by omega) (fun name hn => hp name (hnames name hn)) fun name hn =>
        ha name (hnames name hn)
    · have hcount := count_le_countAll hm
      have hname : name ∈ Selection.spreadsIn set := mem_spreadsIn hm List.mem_cons_self
      have henter := outside_enter hf (hp name hname name .refl)
      have hinner : ∀ inner ∈ Selection.spreadsIn fragment.selections,
          inner ∈ fragmentSpreads fragments name :=
        fun inner hi => (mem_fragmentSpreads_of_named hf).mpr hi
      rw [Selection.count] at hcount
      refine @ih (name :: path) _ (by omega) (fun inner hi other ho => ?_) fun inner hi => ?_
      · -- What leads back to `name` itself would close a cycle.
        have hreach : SpreadsTo fragments name other := ReflTransGen.head (hinner inner hi) ho
        rw [List.mem_cons, not_or]
        refine ⟨?_, hp name hname other hreach⟩
        rintro rfl
        exact ha other hname other .refl (TransGen.head' (hinner inner hi) ho)
      · exact fun other ho => ha name hname other (ReflTransGen.head (hinner inner hi) ho)

/-! ## 4. Other fragments -/

/-- Two lists of fragments have the same fragments of some names, and these spread no others. -/
structure AgreeOn (names : Name → Prop) (fragments fragments' : List Fragment) : Prop where
  named : ∀ name, names name → fragmentNamed? fragments name = fragmentNamed? fragments' name
  within : ∀ name fragment, names name → fragmentNamed? fragments name = some fragment →
    ∀ inner ∈ Selection.spreadsIn fragment.selections, names inner

theorem fieldsAt_congr {names : Name → Prop} {fragments fragments' : List Fragment}
    (h : AgreeOn names fragments fragments') (depth : Nat) (spread : List Name)
    {sets : List (Name × List Selection)}
    (hs : ∀ entry ∈ sets, ∀ name ∈ Selection.spreadsIn entry.2, names name) :
    fieldsAt fragments depth spread sets = fieldsAt fragments' depth spread sets := by
  induction depth generalizing spread sets with
  | zero => rfl
  | succ depth ih =>
    have hhere : ∀ outer selection, (outer, selection) ∈ selectionsOf sets →
        ∀ name ∈ selection.spreads, names name := by
      intro outer selection hm name hn
      obtain ⟨set, hset, hsel⟩ := mem_selectionsOf hm
      exact hs _ hset name (mem_spreadsIn hsel hn)
    have hinner : innerSets fragments spread (selectionsOf sets) =
        innerSets fragments' spread (selectionsOf sets) :=
      innerSets_congr fun outer name directives hm =>
        h.named name (hhere outer _ hm name List.mem_cons_self)
    rw [fieldsAt_succ, fieldsAt_succ, ← hinner]
    congr 1
    refine ih _ fun entry hm name hn => ?_
    rcases mem_innerSets hm with ⟨outer, condition, directives, nested, hin, rfl⟩ |
        ⟨outer, inner, directives, fragment, hin, hf, rfl⟩
    · exact hhere outer _ hin name (by rwa [Selection.spreads])
    · exact h.within inner fragment (hhere outer _ hin inner List.mem_cons_self) hf name hn

mutual

theorem hasCondition_congr {spread spread' : Name → Bool} : ∀ selection : Selection,
    (∀ name ∈ selection.spreads, spread name = spread' name) →
    hasCondition spread selection = hasCondition spread' selection
  | .field alias? name arguments directives nested, _ => rfl
  | .spread name directives, h => by
    rw [hasCondition, hasCondition, h name List.mem_cons_self]
  | .inline condition directives nested, h => by
    rw [hasCondition, hasCondition, haveCondition_congr nested h]

theorem haveCondition_congr {spread spread' : Name → Bool} : ∀ set : List Selection,
    (∀ name ∈ Selection.spreadsIn set, spread name = spread' name) →
    haveCondition spread set = haveCondition spread' set
  | [], _ => rfl
  | selection :: rest, h => by
    rw [haveCondition, haveCondition,
      hasCondition_congr selection fun name hn => h name (List.mem_append_left _ hn),
      haveCondition_congr rest fun name hn => h name (List.mem_append_right _ hn)]

end

theorem fragmentHasCondition_congr {names : Name → Prop} {fragments fragments' : List Fragment}
    (h : AgreeOn names fragments fragments') (depth : Nat) {name : Name} (hn : names name) :
    fragmentHasCondition fragments depth name = fragmentHasCondition fragments' depth name := by
  induction depth generalizing name with
  | zero => rfl
  | succ depth ih =>
    rw [fragmentHasCondition, fragmentHasCondition, ← h.named name hn]
    cases hf : fragmentNamed? fragments name with
    | none => rfl
    | some fragment =>
      exact haveCondition_congr fragment.selections fun inner hi =>
        ih (h.within name fragment hn hf inner hi)

end MockGraph
