import MockGraph.Proofs.Walk.Plan

/-!
# `Proofs/Walk/Places`: where the answers go

A plan that succeeds asks the fields of the tour through its selections, so they are asked in the
order of `fieldOrder` and those of a fragment once. The answer to each of them has a place in the
plan, the field's own. A fragment that is spread again gets the plan that it got first, with the
same places, so no matter what the answers are both spreads contribute the same.

`LaysOut` puts this together for one computation that plans, and `plan_laysOut` for all selections.
-/

set_option autoImplicit false

namespace MockGraph.Walk

open Syntax

/-! ## 1. Tours in parts -/

/-- A tour goes on where it left off. -/
theorem tour_append (context : Context) (seen : List Name) (stops rest : List Stop) :
    tour context seen (stops ++ rest) =
      tour context seen stops ++
        tour context ((stopSpreads (tour context seen stops)).reverse ++ seen) rest := by
  fun_induction tour context seen stops with
  | case1 seen => rfl
  | case2 seen field stops ih =>
    rw [List.cons_append, tour_field, ih]
    rfl
  | case3 seen name stops hf ih => rw [List.cons_append, tour_unknown hf, ih]
  | case4 seen name stops fragment hf hn ih => rw [List.cons_append, tour_again hn, ih]
  | case5 seen name stops fragment hf hn ih =>
    rw [List.cons_append, tour_first hf hn, ← List.append_assoc, ih]
    simp

@[simp] theorem nodesIn_append (parts rest : List Plan) :
    nodesIn (parts ++ rest) = nodesIn parts ++ nodesIn rest := by
  induction parts with
  | nil => rfl
  | cons part parts ih => rw [List.cons_append, nodesIn, nodesIn, ih, List.append_assoc]

/-! ## 2. Drafts -/

/-- What a draft holds stays in a later one. -/
structure Draft.Before (draft later : Draft) : Prop where
  asked : draft.asked <+: later.asked
  plans : ∀ name found, draft.plan? name = some found → later.plan? name = some found

/-- A place is that of the field whose answer goes there. A spread has the plan that is noted. -/
def Plan.Fits (schema : TypeSystem) (draft : Draft) : Plan → Prop
  | .field asked found call _ =>
    draft.asked[call]? = some asked ∧ target schema asked.outer asked.name = .ok found
  | .spread name parts => draft.plan? name = some (some parts)
  | _ => True

/-- Every part of the noted plans fits. -/
def Draft.Consistent (schema : TypeSystem) (draft : Draft) : Prop :=
  ∀ name parts, draft.plan? name = some (some parts) →
    ∀ node ∈ nodesIn parts, node.Fits schema draft

/-- The fragments that were spread before a draft. -/
def Covers (seen : List Name) (draft : Draft) : Prop :=
  ∀ name, name ∈ seen ↔ (draft.plan? name).isSome

section Drafts

variable {schema : TypeSystem} {draft middle later : Draft} {node : Plan} {name : Name}

theorem Draft.Before.refl (draft : Draft) : draft.Before draft :=
  ⟨List.prefix_refl _, fun _ _ h => h⟩

theorem Draft.Before.trans (h : draft.Before middle) (h' : middle.Before later) :
    draft.Before later :=
  ⟨h.asked.trans h'.asked, fun name found hp => h'.plans name found (h.plans name found hp)⟩

theorem getElem?_of_begins {α : Type} {xs ys : List α} (h : xs <+: ys) {k : Nat} {x : α}
    (hx : xs[k]? = some x) : ys[k]? = some x := by
  obtain ⟨rest, rfl⟩ := h
  rw [List.getElem?_append_left (List.getElem?_eq_some_iff.mp hx).1, hx]

theorem Plan.Fits.mono (h : node.Fits schema draft) (hb : draft.Before later) :
    node.Fits schema later := by
  cases node with
  | typename | inline => trivial
  | field field found call inner => exact ⟨getElem?_of_begins hb.asked h.1, h.2⟩
  | spread name parts => exact hb.plans name _ h

theorem Plan.Fits.noted (h : node.Fits schema draft)
    (hn : ∀ parts, draft.plan? name ≠ some (some parts)) (found : Option (List Plan)) :
    node.Fits schema (draft.noted name found) := by
  cases node with
  | typename | inline => trivial
  | field field found call inner => exact h
  | spread other parts =>
    have hne : name ≠ other := by
      rintro rfl
      exact hn parts h
    change (draft.noted name found).plan? other = some (some parts)
    rw [plan?_noted, if_neg hne]
    exact h

theorem Draft.Before.ask (draft : Draft) (field : Occurrence) : draft.Before (draft.ask field) :=
  ⟨List.prefix_append _ _, fun _ _ h => h⟩

theorem Draft.Consistent.ask (h : draft.Consistent schema) (field : Occurrence) :
    (draft.ask field).Consistent schema :=
  fun other parts hp node hm => (h other parts hp node hm).mono (Before.ask draft field)

theorem Draft.Consistent.start (h : draft.Consistent schema) (hp : draft.plan? name = none) :
    (draft.noted name none).Consistent schema := by
  intro other parts ho node hm
  rw [plan?_noted] at ho
  split at ho
  · cases ho
  · exact (h other parts ho node hm).noted (by simp [hp]) none

theorem Draft.Consistent.finish (h : draft.Consistent schema) {parts : List Plan}
    (hp : draft.plan? name = some none) (hf : ∀ node ∈ nodesIn parts, node.Fits schema draft) :
    (draft.noted name (some parts)).Consistent schema := by
  intro other found ho node hm
  rw [plan?_noted] at ho
  split at ho
  · cases ho
    exact (hf node hm).noted (by simp [hp]) _
  · exact (h other found ho node hm).noted (by simp [hp]) _

theorem Covers.noted {seen : List Name} (h : Covers seen draft) (found : Option (List Plan)) :
    Covers (name :: seen) (draft.noted name found) := by
  intro other
  rw [plan?_noted, List.mem_cons, h other]
  by_cases hn : name = other
  · simp [hn]
  · simp [hn, Ne.symm hn]

end Drafts

/-! ## 3. What planning lays out -/

/-- From `draft` to `later`, selections with these stops are planned as `parts`. -/
structure LaysOut (context : Context) (draft : Draft) (stops : List Stop) (parts : List Plan)
    (later : Draft) : Prop where
  before : draft.Before later
  /-- What a tour comes to is asked, and the fragments that it comes to are planned. -/
  tours : ∀ seen, Covers seen draft →
    later.asked = draft.asked ++ stopFields (tour context seen stops) ∧
      Covers ((stopSpreads (tour context seen stops)).reverse ++ seen) later
  fits : draft.Consistent context.schema →
    later.Consistent context.schema ∧ ∀ node ∈ nodesIn parts, node.Fits context.schema later
  /-- Every new answer has a place. -/
  placed : ∀ k field, draft.asked.length ≤ k → later.asked[k]? = some field →
    ∃ found inner, .field field found k inner ∈ nodesIn parts

section LaysOut

variable {context : Context} {draft middle later : Draft} {stops rest : List Stop}
  {parts more : List Plan} {name : Name} {fragment : Fragment}

theorem not_placed {k : Nat} {field : Occurrence} (hk : draft.asked.length ≤ k) :
    draft.asked[k]? ≠ some field := by
  intro h
  have := (List.getElem?_eq_some_iff.mp h).1
  omega

theorem LaysOut.nil (context : Context) (draft : Draft) : LaysOut context draft [] [] draft where
  before := .refl draft
  tours seen hc := by simpa using hc
  fits hc := ⟨hc, fun node hm => by cases hm⟩
  placed k field hk hf := absurd hf (not_placed hk)

theorem LaysOut.append (h : LaysOut context draft stops parts middle)
    (h' : LaysOut context middle rest more later) :
    LaysOut context draft (stops ++ rest) (parts ++ more) later where
  before := h.before.trans h'.before
  tours seen hc := by
    obtain ⟨hasked, hc⟩ := h.tours seen hc
    obtain ⟨hasked', hc'⟩ := h'.tours _ hc
    rw [tour_append, stopFields_append, stopSpreads_append, ← List.append_assoc, ← hasked,
      List.reverse_append, List.append_assoc]
    exact ⟨hasked', hc'⟩
  fits hc := by
    obtain ⟨hc, hf⟩ := h.fits hc
    obtain ⟨hc, hf'⟩ := h'.fits hc
    refine ⟨hc, fun node hm => ?_⟩
    rw [nodesIn_append] at hm
    rcases List.mem_append.mp hm with hm | hm
    · exact (hf node hm).mono h'.before
    · exact hf' node hm
  placed k field hk hf := by
    rw [nodesIn_append]
    by_cases hlt : k < middle.asked.length
    · -- It was asked for the first part already.
      have hm : middle.asked[k]? = some field := by
        obtain ⟨new, hnew⟩ := h'.before.asked
        rw [← hnew, List.getElem?_append_left hlt] at hf
        exact hf
      obtain ⟨found, inner, hin⟩ := h.placed k field hk hm
      exact ⟨found, inner, List.mem_append_left _ hin⟩
    · obtain ⟨found, inner, hin⟩ := h'.placed k field (Nat.le_of_not_lt hlt) hf
      exact ⟨found, inner, List.mem_append_right _ hin⟩

theorem LaysOut.typename (context : Context) (draft : Draft) (key cursor : Name) :
    LaysOut context draft [] [.typename key cursor] draft where
  before := .refl draft
  tours seen hc := by simpa using hc
  fits hc := by
    refine ⟨hc, fun node hm => ?_⟩
    cases List.mem_singleton.mp hm
    trivial
  placed k field hk hf := absurd hf (not_placed hk)

theorem LaysOut.inline (h : LaysOut context draft stops parts later) :
    LaysOut context draft stops [.inline parts] later where
  before := h.before
  tours := h.tours
  fits hc := by
    refine ⟨(h.fits hc).1, fun node hm => ?_⟩
    rw [nodesIn, Plan.nodes, nodesIn, List.append_nil] at hm
    rcases List.mem_cons.mp hm with rfl | hm
    · trivial
    · exact (h.fits hc).2 node hm
  placed k field hk hf := by
    obtain ⟨found, inner, hin⟩ := h.placed k field hk hf
    refine ⟨found, inner, ?_⟩
    rw [nodesIn, Plan.nodes, nodesIn, List.append_nil]
    exact List.mem_cons_of_mem _ hin

theorem LaysOut.spread (h : LaysOut context draft stops parts later)
    (hp : later.plan? name = some (some parts)) :
    LaysOut context draft stops [.spread name parts] later where
  before := h.before
  tours := h.tours
  fits hc := by
    refine ⟨(h.fits hc).1, fun node hm => ?_⟩
    rw [nodesIn, Plan.nodes, nodesIn, List.append_nil] at hm
    rcases List.mem_cons.mp hm with rfl | hm
    · exact hp
    · exact (h.fits hc).2 node hm
  placed k field hk hf := by
    obtain ⟨found, inner, hin⟩ := h.placed k field hk hf
    refine ⟨found, inner, ?_⟩
    rw [nodesIn, Plan.nodes, nodesIn, List.append_nil]
    exact List.mem_cons_of_mem _ hin

/-- A field is asked after what is selected on it. -/
theorem LaysOut.field (h : LaysOut context draft stops parts later) {field : Occurrence}
    {found : Target} (ht : target context.schema field.outer field.name = .ok found) :
    LaysOut context draft (stops ++ [.field field]) [.field field found later.asked.length parts]
      (later.ask field) where
  before := h.before.trans (.ask later field)
  tours seen hc := by
    obtain ⟨hasked, hc⟩ := h.tours seen hc
    rw [tour_append, tour_field, tour_nil, stopFields_append, stopSpreads_append, Draft.ask, hasked]
    simp only [stopFields_field, stopFields_nil, stopSpreads_field, stopSpreads_nil,
      List.append_nil, List.append_assoc, true_and]
    exact hc
  fits hc := by
    obtain ⟨hc, hf⟩ := h.fits hc
    refine ⟨hc.ask field, fun node hm => ?_⟩
    rw [nodesIn, Plan.nodes, nodesIn, List.append_nil] at hm
    rcases List.mem_cons.mp hm with rfl | hm
    · exact ⟨List.getElem?_concat_length, ht⟩
    · exact (hf node hm).mono (.ask later field)
  placed k asked hk hf := by
    rw [nodesIn, Plan.nodes, nodesIn, List.append_nil]
    rcases Nat.lt_trichotomy k later.asked.length with hlt | rfl | hgt
    · have hold : later.asked[k]? = some asked := by
        rw [← hf, Draft.ask, List.getElem?_append_left hlt]
      obtain ⟨found, inner, hin⟩ := h.placed k asked hk hold
      exact ⟨found, inner, List.mem_cons_of_mem _ hin⟩
    · rw [Draft.ask, List.getElem?_concat_length] at hf
      cases hf
      exact ⟨found, parts, List.mem_cons_self⟩
    · have := (List.getElem?_eq_some_iff.mp hf).1
      simp [Draft.ask] at this
      omega

/-- A fragment that has its plan is not toured again. -/
theorem LaysOut.again (hp : draft.plan? name = some (some parts)) :
    LaysOut context draft [.spread name] parts draft where
  before := .refl draft
  tours seen hc := by
    have hn : name ∈ seen := (hc name).mpr (by simp [hp])
    rw [tour_again hn, tour_nil]
    simpa using hc
  fits hc := ⟨hc, hc name parts hp⟩
  placed k field hk hf := absurd hf (not_placed hk)

/-- A fragment that is spread first gets its plan. -/
theorem LaysOut.first (hf : context.fragment? name = some fragment) (hp : draft.plan? name = none)
    (h : LaysOut context (draft.noted name none) (fragmentStops context fragment) parts later) :
    LaysOut context draft [.spread name] parts (later.noted name (some parts)) := by
  have hstarted : later.plan? name = some none :=
    h.before.plans name none (by simp [plan?_noted])
  refine ⟨⟨h.before.asked, fun other found ho => ?_⟩, fun seen hc => ?_, fun hc => ?_, h.placed⟩
  · have hne : name ≠ other := by
      rintro rfl
      simp [hp] at ho
    rw [plan?_noted, if_neg hne]
    exact h.before.plans other found (by rwa [plan?_noted, if_neg hne])
  · have hn : name ∉ seen := fun hm => by simpa [hp] using (hc name).mp hm
    obtain ⟨hasked, hc'⟩ := h.tours (name :: seen) (hc.noted none)
    rw [tour_first hf hn, List.append_nil, stopFields_spread, stopSpreads_spread]
    refine ⟨hasked, fun other => ?_⟩
    rw [List.reverse_cons, List.append_assoc, List.singleton_append, hc' other, plan?_noted]
    by_cases hne : name = other
    · simp [← hne, hstarted]
    · rw [if_neg hne]
  · obtain ⟨hc', hfits⟩ := h.fits (hc.start hp)
    exact ⟨hc'.finish hstarted hfits, fun node hm => (hfits node hm).noted (by simp [hstarted]) _⟩

end LaysOut

/-! ## 4. Planning lays out what it plans -/

theorem drafted_bind_ok {α β : Type} {planning : Planning α} {next : α → Planning β}
    {draft later : Draft} {b : β} (h : drafted (planning >>= next) draft = (.ok b, later)) :
    ∃ a middle, drafted planning draft = (.ok a, middle) ∧
      drafted (next a) middle = (.ok b, later) := by
  rw [drafted_bind] at h
  rcases hp : drafted planning draft with ⟨error | a, middle⟩ <;> rw [hp] at h
  · cases h
  · exact ⟨a, middle, rfl, h⟩

/-- A spread is planned as its one stop, and its plan is noted. -/
def LaysOutSpread (context : Context) (planning : Planning (List Plan)) (name : Name) : Prop :=
  ∀ draft parts later, drafted planning draft = (.ok parts, later) →
    LaysOut context draft [.spread name] parts later ∧ later.plan? name = some (some parts)

section Selections

variable {context : Context} {draft later : Draft}

theorem laysOut_planField {field : Occurrence} {found : Target} {planning : Planning (List Plan)}
    {stops : List Stop} {part : Plan}
    (ht : target context.schema field.outer field.name = .ok found)
    (hn : found.kind.isComposite = true → ∀ parts middle,
      drafted planning draft = (.ok parts, middle) → LaysOut context draft stops parts middle)
    (hs : found.kind.isComposite = false → stops = [])
    (h : drafted (planField field found planning) draft = (.ok part, later)) :
    LaysOut context draft (stops ++ [.field field]) [part] later := by
  rw [planField] at h
  by_cases hi : found.kind = .inputObject
  · rw [if_pos hi] at h
    cases h
  rw [if_neg hi] at h
  cases hk : found.kind.isComposite with
  | true =>
    rw [if_pos hk] at h
    obtain ⟨inner, middle, hplan, h⟩ := drafted_bind_ok h
    cases h
    exact (hn hk inner middle hplan).field ht
  | false =>
    rw [if_neg (by simp [hk])] at h
    cases h
    rw [hs hk]
    exact (LaysOut.nil context draft).field ht

variable {inside : Name → Planning (List Plan)}

mutual

theorem laysOut_planOne (hi : ∀ name, LaysOutSpread context (inside name) name) (cursor : Name) :
    ∀ selection draft part later,
      drafted (planOne context.schema inside cursor selection) draft = (.ok part, later) →
        LaysOut context draft (stopsOf context.schema cursor selection) [part] later
  | .field alias? name arguments directives nested, draft, part, later, h => by
    rw [planOne] at h
    rw [stopsOf]
    by_cases hn : name = "__typename"
    · rw [if_pos hn] at h ⊢
      cases h
      exact .typename context draft _ _
    rw [if_neg hn] at h ⊢
    cases ht : target context.schema cursor name with
    | error mismatch =>
      rw [ht] at h
      cases h
    | ok found =>
      rw [ht] at h
      refine laysOut_planField ht (fun hk parts middle hplan => ?_) (fun hk => ?_) h
      · rw [descent?_composite hn ht hk]
        exact laysOut_planAll hi found.name nested draft parts middle hplan
      · have hd : descent? context.schema cursor name = none := by
          simp [descent?, hn, ht, hk]
        rw [hd]
  | .spread name directives, draft, part, later, h => by
    rw [planOne] at h
    obtain ⟨parts, middle, hplan, h⟩ := drafted_bind_ok h
    cases h
    obtain ⟨hlays, hp⟩ := hi name draft parts later hplan
    rw [stopsOf]
    exact hlays.spread hp
  | .inline condition directives nested, draft, part, later, h => by
    rw [planOne] at h
    obtain ⟨parts, middle, hplan, h⟩ := drafted_bind_ok h
    cases h
    rw [stopsOf]
    exact (laysOut_planAll hi (condition.getD cursor) nested draft parts later hplan).inline

theorem laysOut_planAll (hi : ∀ name, LaysOutSpread context (inside name) name) (cursor : Name) :
    ∀ set draft parts later,
      drafted (planAll context.schema inside cursor set) draft = (.ok parts, later) →
        LaysOut context draft (stopsIn context.schema cursor set) parts later
  | [], draft, parts, later, h => by
    rw [planAll] at h
    cases h
    exact .nil context draft
  | selection :: rest, draft, parts, later, h => by
    rw [planAll] at h
    obtain ⟨part, middle, hone, h⟩ := drafted_bind_ok h
    obtain ⟨more, last, hrest, h⟩ := drafted_bind_ok h
    cases h
    rw [stopsIn]
    exact (laysOut_planOne hi cursor selection draft part middle hone).append
      (laysOut_planAll hi cursor rest middle more later hrest)

end

end Selections

theorem laysOut_planWith {context : Context} {planning : Fragment → Planning (List Plan)}
    (hp : ∀ fragment draft parts later, drafted (planning fragment) draft = (.ok parts, later) →
      LaysOut context draft (fragmentStops context fragment) parts later) (name : Name) :
    LaysOutSpread context (planWith context.fragments planning name) name := by
  intro draft parts later h
  unfold planWith at h
  cases hf : context.fragments.find? (·.name = name) with
  | none =>
    rw [hf] at h
    cases h
  | some fragment =>
    rw [hf] at h
    obtain ⟨start, between, hget, h⟩ := drafted_bind_ok h
    cases hget
    rcases hplan : draft.plan? name with _ | (_ | noted) <;> simp only [hplan] at h
    · obtain ⟨_, _, hnote, h⟩ := drafted_bind_ok h
      cases hnote
      obtain ⟨found, middle, hfragment, h⟩ := drafted_bind_ok h
      obtain ⟨_, _, hnote, h⟩ := drafted_bind_ok h
      cases hnote
      cases h
      exact ⟨.first hf hplan (hp fragment _ parts middle hfragment), by simp [plan?_noted]⟩
    · cases h
    · cases h
      exact ⟨.again hplan, hplan⟩

theorem laysOut_planAt (context : Context) (depth : Nat) :
    ∀ name, LaysOutSpread context (planAt context.schema context.fragments depth name) name := by
  induction depth with
  | zero =>
    refine laysOut_planWith fun fragment draft parts later h => ?_
    cases h
  | succ depth ih =>
    exact laysOut_planWith fun fragment draft parts later h =>
      laysOut_planAll ih fragment.typeCondition fragment.selections draft parts later h

/-- **Fields are asked in the order of the tour.** The answer to the field with the number `k` goes
where the plan has this field with this number, and nowhere else, and all spreads of a fragment have
the same plan. -/
theorem plan_laysOut {context : Context} {cursor : Name} {set : List Selection} {parts : List Plan}
    (h : (plan context.schema context.fragments cursor set).1 = .ok parts) :
    (plan context.schema context.fragments cursor set).2 = fieldOrder context cursor set ∧
    (∀ k field, (fieldOrder context cursor set)[k]? = some field →
      ∃ found inner, .field field found k inner ∈ nodesIn parts) ∧
    (∀ field found k inner, .field field found k inner ∈ nodesIn parts →
      (fieldOrder context cursor set)[k]? = some field ∧
        target context.schema field.outer field.name = .ok found) ∧
    ∀ name inner again, .spread name inner ∈ nodesIn parts → .spread name again ∈ nodesIn parts →
      inner = again := by
  unfold plan at h ⊢
  rcases hplan : drafted (planAll context.schema
    (planAt context.schema context.fragments context.fragments.length) cursor set) ⟨[], []⟩
    with ⟨result, later⟩
  rw [hplan] at h
  cases h
  have lays := laysOut_planAll (laysOut_planAt context _) cursor set _ _ _ hplan
  have hcovers : Covers [] ⟨[], []⟩ := fun name => by simp [Draft.plan?]
  have hconsistent : Draft.Consistent context.schema ⟨[], []⟩ := by
    intro name parts hp
    cases hp
  have hasked : later.asked = fieldOrder context cursor set := (lays.tours [] hcovers).1
  obtain ⟨-, hfits⟩ := lays.fits hconsistent
  rw [← hasked]
  refine ⟨rfl, fun k field hk => lays.placed k field (Nat.zero_le k) hk, ?_, ?_⟩
  · exact fun field found k inner hm => hfits _ hm
  · intro name inner again hm hm'
    have hp : later.plan? name = some (some inner) := hfits _ hm
    have hp' : later.plan? name = some (some again) := hfits _ hm'
    cases hp.symm.trans hp'
    rfl

end MockGraph.Walk
