import Mathlib.Data.List.Basic
import MockGraph.Proofs.Validation.Grounding
import MockGraph.Proofs.Validation.Levels

/-!
# `Proofs/Validation/Merging`: fields that merge with a checked schema merge without the check

The rules for merging collect fields level by level, group them, and go on with what is selected on
them. So they see a document through two things: the fragments that its selections reach, and what
the types of its fields are. `Alike` compares the fragments of a document before and after fields are
left out of them, `Settled` says that selections mean the same with both schemas, and every selection
set that the rules come to is settled if the one they start with is. Then both find the same
(`mergeViolations_checked`).

How many levels are looked at depends on all fragments of the document, so it can differ; what is
found in them does not (`Alike.fieldsAt`).
-/

set_option autoImplicit false

namespace MockGraph

open Syntax Relation TypeSystem

/-! ## 1. Where fields stand -/

/-- A property of selection sets, each on its type, that the fragments in them inherit. -/
structure Inherited (fragments : List Fragment) (holds : Name → List Selection → Prop) : Prop where
  inline : ∀ {outer set condition directives nested}, holds outer set →
    Selection.inline condition directives nested ∈ set → holds (condition.getD outer) nested
  spread : ∀ {outer set name directives fragment}, holds outer set →
    Selection.spread name directives ∈ set → fragmentNamed? fragments name = some fragment →
    holds fragment.typeCondition fragment.selections

/-- A field that is collected stands in a selection set with such a property. -/
theorem Inherited.mem_fieldsAt {fragments : List Fragment} {holds : Name → List Selection → Prop}
    (h : Inherited fragments holds) {depth : Nat} {spread : List Name}
    {sets : List (Name × List Selection)} (hs : ∀ entry ∈ sets, holds entry.1 entry.2)
    {field : Occurrence} (hm : field ∈ fieldsAt fragments depth spread sets) :
    ∃ set alias? directives, holds field.outer set ∧
      Selection.field alias? field.name field.arguments directives field.nested ∈ set := by
  induction depth generalizing spread sets with
  | zero => cases hm
  | succ depth ih =>
    rw [fieldsAt_succ] at hm
    rcases List.mem_append.mp hm with hm | hm
    · obtain ⟨⟨outer, selection⟩, hhere, ho⟩ := List.mem_filterMap.mp hm
      obtain ⟨set, hset, hsel⟩ := mem_selectionsOf hhere
      cases selection with
      | field alias? name arguments directives nested =>
        cases ho
        exact ⟨set, alias?, directives, hs _ hset, hsel⟩
      | spread name directives => cases ho
      | inline condition directives nested => cases ho
    · refine ih (fun entry he => ?_) hm
      rcases mem_innerSets he with ⟨outer, condition, directives, nested, hhere, rfl⟩ |
          ⟨outer, name, directives, fragment, hhere, hf, rfl⟩
      · obtain ⟨set, hset, hsel⟩ := mem_selectionsOf hhere
        exact h.inline (hs _ hset) hsel
      · obtain ⟨set, hset, hsel⟩ := mem_selectionsOf hhere
        exact h.spread (hs _ hset) hsel hf

/-! ## 2. Parts of a document -/

/-- Selections are among others, at any depth, or are all of them. -/
structure PartOf (set whole : List Selection) : Prop where
  count : Selection.countAll set ≤ Selection.countAll whole
  spreads : ∀ name ∈ Selection.spreadsIn set, name ∈ Selection.spreadsIn whole

namespace PartOf

variable {set whole nested : List Selection}

theorem refl (set : List Selection) : PartOf set set := ⟨Nat.le_refl _, fun _ hn => hn⟩

theorem trans (h : PartOf nested set) (h' : PartOf set whole) : PartOf nested whole :=
  ⟨Nat.le_trans h.count h'.count, fun name hn => h'.spreads name (h.spreads name hn)⟩

theorem of_field {alias? : Option Name} {name : Name} {arguments : List Argument}
    {directives : List Directive}
    (hm : Selection.field alias? name arguments directives nested ∈ set) : PartOf nested set := by
  have hcount := count_le_countAll hm
  rw [Selection.count] at hcount
  exact ⟨by omega, fun name hn => mem_spreadsIn hm (by rwa [Selection.spreads])⟩

theorem of_inline {condition : Option Name} {directives : List Directive}
    (hm : Selection.inline condition directives nested ∈ set) : PartOf nested set := by
  have hcount := count_le_countAll hm
  rw [Selection.count] at hcount
  exact ⟨by omega, fun name hn => mem_spreadsIn hm (by rwa [Selection.spreads])⟩

end PartOf

/-- Selections are part of an operation's or of one of its fragments. -/
def Inside (names : Name → Prop) (fragments : List Fragment) (operation set : List Selection) :
    Prop :=
  PartOf set operation ∨ ∃ name fragment, names name ∧
    fragmentNamed? fragments name = some fragment ∧ PartOf set fragment.selections

/-- Two lists of fragments agree on some names, none of which is that of a cycle, and in both all
fragments spread the same. -/
structure Alike (names : Name → Prop) (fragments fragments' : List Fragment) : Prop extends
    AgreeOn names fragments fragments' where
  spreads : fragmentSpreads fragments = fragmentSpreads fragments'
  acyclic : ∀ name, names name →
    ¬ TransGen (fun name inner => inner ∈ fragmentSpreads fragments name) name name

section Alike

variable {names : Name → Prop} {fragments fragments' : List Fragment}
  {operation set : List Selection}

theorem Inside.mono (h : Inside names fragments operation set) {nested : List Selection}
    (hp : PartOf nested set) : Inside names fragments operation nested := by
  rcases h with h | ⟨name, fragment, hn, hf, h⟩
  · exact .inl (hp.trans h)
  · exact .inr ⟨name, fragment, hn, hf, hp.trans h⟩

namespace Alike

theorem symm (h : Alike names fragments fragments') : Alike names fragments' fragments where
  named := fun name hn => (h.named name hn).symm
  within := fun name fragment hn hf => h.within name fragment hn ((h.named name hn).trans hf)
  spreads := h.spreads.symm
  acyclic := h.spreads ▸ h.acyclic

theorem inside (h : Alike names fragments fragments') (hs : Inside names fragments operation set) :
    Inside names fragments' operation set := by
  rcases hs with hs | ⟨name, fragment, hn, hf, hs⟩
  · exact .inl hs
  · exact .inr ⟨name, fragment, hn, (h.named name hn).symm.trans hf, hs⟩

/-- What a name leads to is again among the names. -/
theorem names_of_spreadsTo (h : Alike names fragments fragments') {name inner : Name}
    (hn : names name) (hi : SpreadsTo fragments name inner) : names inner := by
  induction hi with
  | refl => exact hn
  | @tail middle inner _ hstep ih =>
    cases hf : fragmentNamed? fragments middle with
    | none => simp [fragmentSpreads, hf] at hstep
    | some fragment =>
      exact h.within middle fragment ih hf inner ((mem_fragmentSpreads_of_named hf).mp hstep)

theorem acyclic_of_names (h : Alike names fragments fragments') {name : Name} (hn : names name) :
    Acyclic fragments name :=
  fun inner hi => h.acyclic inner (h.names_of_spreadsTo hn hi)

/-- What is spread inside is among the names. -/
theorem names_of_inside (h : Alike names fragments fragments')
    (ho : ∀ name ∈ Selection.spreadsIn operation, names name)
    (hs : Inside names fragments operation set) :
    ∀ name ∈ Selection.spreadsIn set, names name := by
  intro name hn
  rcases hs with hs | ⟨outer, fragment, houter, hf, hs⟩
  · exact ho name (hs.spreads name hn)
  · exact h.within outer fragment houter hf name (hs.spreads name hn)

/-- Selections inside have no more levels than are looked at. -/
theorem levels_of_inside (h : Alike names fragments fragments')
    (ho : ∀ name ∈ Selection.spreadsIn operation, names name)
    (hs : Inside names fragments operation set) :
    Levels fragments (depthBound fragments operation) set := by
  have hnames := h.names_of_inside ho hs
  have hall : outside fragments [] = Selection.countAll (fragments.flatMap (·.selections)) := by
    rw [outside, List.filter_eq_self.mpr fun _ _ => by simp]
  have hbound : depthBound fragments operation =
      Selection.countAll operation + outside fragments [] + 1 := by
    rw [depthBound, countAll_append, hall]
  have hacyclic : ∀ name ∈ Selection.spreadsIn set, Acyclic fragments name :=
    fun name hn => h.acyclic_of_names (hnames name hn)
  rcases hs with hs | ⟨outer, fragment, houter, hf, hs⟩
  · have hcount := hs.count
    exact @levels_of_acyclic _ _ [] _ (by omega) (fun _ _ _ _ => by simp) hacyclic
  · -- Inside the fragment `outer` the path begins with it: nothing in there leads back to it.
    have hcount := hs.count
    have henter := outside_enter hf (List.not_mem_nil (a := outer))
    refine @levels_of_acyclic _ _ [outer] _ (by omega) (fun name hn inner hi hin => ?_) hacyclic
    rw [List.mem_singleton.mp hin] at hi
    have hstep := (mem_fragmentSpreads_of_named hf).mpr (hs.spreads name hn)
    exact h.acyclic outer houter (TransGen.head' hstep hi)

/-- The same fields are collected. -/
theorem fieldsAt (h : Alike names fragments fragments')
    (ho : ∀ name ∈ Selection.spreadsIn operation, names name)
    {sets : List (Name × List Selection)}
    (hs : ∀ entry ∈ sets, Inside names fragments operation entry.2) :
    fieldsAt fragments (depthBound fragments operation) [] sets =
      fieldsAt fragments' (depthBound fragments' operation) [] sets := by
  have hlevels := fun entry he => h.levels_of_inside ho (hs entry he)
  have hlevels' := fun entry he => h.symm.levels_of_inside ho (h.inside (hs entry he))
  -- The bounds differ if fields are left out, so both are raised to one that is enough for both.
  let most := max (depthBound fragments operation) (depthBound fragments' operation)
  calc MockGraph.fieldsAt fragments (depthBound fragments operation) [] sets
      = MockGraph.fieldsAt fragments most [] sets :=
        fieldsAt_of_levels hlevels (Nat.le_refl _) (Nat.le_max_left _ _) []
    _ = MockGraph.fieldsAt fragments' most [] sets :=
        fieldsAt_congr h.toAgreeOn most [] fun entry he => h.names_of_inside ho (hs entry he)
    _ = MockGraph.fieldsAt fragments' (depthBound fragments' operation) [] sets :=
        fieldsAt_of_levels hlevels' (Nat.le_max_right _ _) (Nat.le_refl _) []

end Alike

end Alike

/-! ## 3. Fields and their types -/

section Types

variable {schema : TypeSystem}

theorem Occurrence.type?_checked {field : Occurrence} (h : schema.Keeps field.outer) :
    field.type? schema.withoutUnusedScalars = field.type? schema := by
  rw [Occurrence.type?, Occurrence.type?, h]
  rfl

/-- The type of a field is that of its definition. -/
theorem Occurrence.field_of_type? {field : Occurrence} {type : TypeRef}
    (h : field.type? schema = some type) :
    ∃ definition, schema.field field.outer field.name = .ok definition ∧ definition.type = type := by
  obtain ⟨definition, hd, rfl⟩ := Option.map_eq_some_iff.mp h
  obtain ⟨outer, ho, hf⟩ := Option.bind_eq_some_iff.mp hd
  exact ⟨definition, by simp only [TypeSystem.field, ho, hf], rfl⟩

theorem Occurrence.keeps_of_type? (hs : schema.Standard) {field : Occurrence} {type : TypeRef}
    (h : field.type? schema = some type) : schema.Keeps type.innerName := by
  obtain ⟨definition, hd, rfl⟩ := Occurrence.field_of_type? h
  exact (hs.keeps_field hd).1

theorem sameNamed_checked {a b : Name} (ha : schema.Keeps a) (hb : schema.Keeps b) :
    sameNamed schema.withoutUnusedScalars a b = sameNamed schema a b := by
  rw [sameNamed, sameNamed, ha, hb]

theorem sameShape_checked {a b : TypeRef} (ha : schema.Keeps a.innerName)
    (hb : schema.Keeps b.innerName) :
    sameShape schema.withoutUnusedScalars a b = sameShape schema a b := by
  induction a generalizing b with
  | named name | nonNullNamed name =>
    cases b <;> first | rfl | exact sameNamed_checked ha hb
  | list item ih | nonNullList item ih =>
    cases b <;> first | rfl | exact ih ha hb

/-- Fields on types that keep their meaning have uniform shapes with both schemas or with none. -/
theorem uniformShape_checked (hs : schema.Standard) {fields : List Occurrence}
    (h : ∀ field ∈ fields, schema.Keeps field.outer) :
    uniformShape schema.withoutUnusedScalars fields = uniformShape schema fields := by
  have htypes : fields.filterMap (·.type? schema.withoutUnusedScalars) =
      fields.filterMap (·.type? schema) :=
    List.filterMap_congr fun field hm => Occurrence.type?_checked (h field hm)
  have hkeeps : ∀ type ∈ fields.filterMap (·.type? schema), schema.Keeps type.innerName := by
    intro type hm
    obtain ⟨field, -, ht⟩ := List.mem_filterMap.mp hm
    exact Occurrence.keeps_of_type? hs ht
  unfold uniformShape
  rw [htypes]
  split
  · rfl
  · next first rest hsplit =>
    rw [hsplit] at hkeeps
    have hsame : ∀ type ∈ rest, sameShape schema.withoutUnusedScalars first type =
        sameShape schema first type := fun type hm =>
      sameShape_checked (hkeeps first List.mem_cons_self) (hkeeps type (List.mem_cons_of_mem _ hm))
    rw [Bool.eq_iff_iff, List.all_eq_true, List.all_eq_true]
    exact forall₂_congr fun type hm => by rw [hsame type hm]

theorem nestedSets_checked {fields : List Occurrence}
    (h : ∀ field ∈ fields, schema.Keeps field.outer) :
    nestedSets schema.withoutUnusedScalars fields = nestedSets schema fields :=
  List.filterMap_congr fun field hm => by rw [Occurrence.type?_checked (h field hm)]

theorem togetherGroups_checked {fields : List Occurrence}
    (h : ∀ field ∈ fields, schema.Keeps field.outer) :
    togetherGroups schema.withoutUnusedScalars fields = togetherGroups schema fields := by
  have hobject : ∀ field ∈ fields,
      decide (schema.withoutUnusedScalars.kind? field.outer = some .object) =
        decide (schema.kind? field.outer = some .object) :=
    fun field hm => by rw [kind?_checked (h field hm)]
  unfold togetherGroups
  simp only [List.filter_congr hobject,
    List.filter_congr fun field hm => congrArg (!·) (hobject field hm)]

end Types

theorem mem_of_mem_groupBy {key : Occurrence → Name} {fields group : List Occurrence}
    {field : Occurrence} (hg : group ∈ groupBy key fields) (hm : field ∈ group) :
    field ∈ fields := by
  obtain ⟨name, -, rfl⟩ := List.mem_map.mp hg
  exact (List.mem_filter.mp hm).1

theorem mem_of_mem_togetherGroups {schema : TypeSystem} {fields group : List Occurrence}
    {field : Occurrence} (hg : group ∈ togetherGroups schema fields) (hm : field ∈ group) :
    field ∈ fields := by
  unfold togetherGroups at hg
  simp only at hg
  split at hg
  · rw [List.mem_singleton.mp hg] at hm
    exact (List.mem_filter.mp hm).1
  · obtain ⟨concrete, hc, rfl⟩ := List.mem_map.mp hg
    rcases List.mem_append.mp hm with hm | hm
    · exact (List.mem_filter.mp (mem_of_mem_groupBy hc hm)).1
    · exact (List.mem_filter.mp hm).1

/-! ## 4. Settled selections -/

/-- Selections on a type mean the same with the schema and after it is checked, and are those of an
operation. -/
structure Settled (schema : TypeSystem) (names : Name → Prop) (fragments : List Fragment)
    (operation : List Selection) (outer : Name) (set : List Selection) : Prop where
  keeps : schema.Keeps outer
  grounded : GroundedIn schema outer set
  inside : Inside names fragments operation set

/-- Everything that an operation is made of means the same with the schema and after it is checked;
`fragments` are the fragments for the one and `fragments'` those for the other. -/
structure SettledOperation (schema : TypeSystem) (names : Name → Prop)
    (fragments fragments' : List Fragment) (operation : List Selection) : Prop where
  standard : schema.Standard
  alike : Alike names fragments fragments'
  spreads : ∀ name ∈ Selection.spreadsIn operation, names name
  grounded : ∀ name fragment, names name → fragmentNamed? fragments name = some fragment →
    schema.Keeps fragment.typeCondition ∧
      GroundedIn schema fragment.typeCondition fragment.selections

namespace SettledOperation

variable {schema : TypeSystem} {names : Name → Prop} {fragments fragments' : List Fragment}
  {operation : List Selection}

theorem inherited (h : SettledOperation schema names fragments fragments' operation) :
    Inherited fragments (Settled schema names fragments operation) where
  inline := by
    intro outer set condition directives nested hs hm
    obtain ⟨hkeeps, hgrounded⟩ := grounded_of_mem hs.grounded hm
    exact ⟨hkeeps, hgrounded, hs.inside.mono (.of_inline hm)⟩
  spread := by
    intro outer set name directives fragment hs hm hf
    have hname := h.alike.names_of_inside h.spreads hs.inside name
      (mem_spreadsIn hm List.mem_cons_self)
    obtain ⟨hkeeps, hgrounded⟩ := h.grounded name fragment hname hf
    exact ⟨hkeeps, hgrounded, .inr ⟨name, fragment, hname, hf, .refl _⟩⟩

/-- The selection sets to go on with are settled again. -/
theorem nestedSets (h : SettledOperation schema names fragments fragments' operation)
    {bound : Nat} {sets : List (Name × List Selection)}
    (hs : ∀ entry ∈ sets, Settled schema names fragments operation entry.1 entry.2)
    {fields : List Occurrence} (hf : ∀ field ∈ fields, field ∈ fieldsAt fragments bound [] sets) :
    ∀ entry ∈ nestedSets schema fields,
      Settled schema names fragments operation entry.1 entry.2 := by
  intro entry hm
  obtain ⟨field, hfield, he⟩ := List.mem_filterMap.mp hm
  obtain ⟨type, ht, rfl⟩ := Option.map_eq_some_iff.mp he
  obtain ⟨set, alias?, directives, hset, hsel⟩ := h.inherited.mem_fieldsAt hs (hf field hfield)
  obtain ⟨definition, hd, rfl⟩ := Occurrence.field_of_type? ht
  exact ⟨(h.standard.keeps_field hd).1, grounded_of_mem hset.grounded hsel definition hd,
    hset.inside.mono (.of_field hsel)⟩

/-- Everything that the rules for merging look at is the same. -/
theorem keyGroups_checked (h : SettledOperation schema names fragments fragments' operation)
    {sets : List (Name × List Selection)}
    (hs : ∀ entry ∈ sets, Settled schema names fragments operation entry.1 entry.2) :
    keyGroups ⟨schema.withoutUnusedScalars, fragments', depthBound fragments' operation⟩ sets =
      keyGroups ⟨schema, fragments, depthBound fragments operation⟩ sets := by
  unfold keyGroups
  rw [← h.alike.fieldsAt h.spreads fun entry he => (hs entry he).inside]
  congr 1
  refine List.filter_congr fun field hm => ?_
  obtain ⟨set, alias?, directives, hset, -⟩ := h.inherited.mem_fieldsAt hs hm
  rw [Occurrence.type?_checked hset.keeps]

/-- The fields of a group stand on types that keep their meaning, and what is selected on some of them
is settled again. -/
theorem of_keyGroups (h : SettledOperation schema names fragments fragments' operation)
    {sets : List (Name × List Selection)}
    (hs : ∀ entry ∈ sets, Settled schema names fragments operation entry.1 entry.2)
    {group : List Occurrence}
    (hg : group ∈ keyGroups ⟨schema, fragments, depthBound fragments operation⟩ sets)
    {fields : List Occurrence} (hf : ∀ field ∈ fields, field ∈ group) :
    (∀ field ∈ fields, schema.Keeps field.outer) ∧
      ∀ entry ∈ MockGraph.nestedSets schema fields,
        Settled schema names fragments operation entry.1 entry.2 := by
  have hcollected : ∀ field ∈ fields,
      field ∈ fieldsAt fragments (depthBound fragments operation) [] sets :=
    fun field hm => (List.mem_filter.mp (mem_of_mem_groupBy hg (hf field hm))).1
  refine ⟨fun field hm => ?_, h.nestedSets hs hcollected⟩
  obtain ⟨set, alias?, directives, hset, -⟩ := h.inherited.mem_fieldsAt hs (hcollected field hm)
  exact hset.keeps

/-! ## 5. Conflicts -/

theorem shapeConflicts_checked (h : SettledOperation schema names fragments fragments' operation)
    (depth : Nat) {sets : List (Name × List Selection)}
    (hs : ∀ entry ∈ sets, Settled schema names fragments operation entry.1 entry.2) :
    shapeConflicts ⟨schema.withoutUnusedScalars, fragments', depthBound fragments' operation⟩ depth
        sets =
      shapeConflicts ⟨schema, fragments, depthBound fragments operation⟩ depth sets := by
  induction depth generalizing sets with
  | zero => rfl
  | succ depth ih =>
    rw [shapeConflicts, shapeConflicts, h.keyGroups_checked hs]
    refine List.flatMap_congr fun group hg => ?_
    obtain ⟨hkeeps, hnested⟩ := h.of_keyGroups hs hg fun _ hm => hm
    rw [uniformShape_checked h.standard hkeeps, nestedSets_checked hkeeps, ih hnested]

theorem fieldConflicts_checked (h : SettledOperation schema names fragments fragments' operation)
    (depth : Nat) {sets : List (Name × List Selection)}
    (hs : ∀ entry ∈ sets, Settled schema names fragments operation entry.1 entry.2) :
    fieldConflicts ⟨schema.withoutUnusedScalars, fragments', depthBound fragments' operation⟩ depth
        sets =
      fieldConflicts ⟨schema, fragments, depthBound fragments operation⟩ depth sets := by
  induction depth generalizing sets with
  | zero => rfl
  | succ depth ih =>
    rw [fieldConflicts, fieldConflicts, h.keyGroups_checked hs]
    refine List.flatMap_congr fun group hg => ?_
    rw [togetherGroups_checked (h.of_keyGroups hs hg fun _ hm => hm).1]
    refine List.flatMap_congr fun together ht => ?_
    obtain ⟨hkeeps, hnested⟩ := h.of_keyGroups hs hg fun _ hm => mem_of_mem_togetherGroups ht hm
    rw [nestedSets_checked hkeeps, ih hnested]

/-- The same fields cannot be merged. -/
theorem mergeViolations_checked (h : SettledOperation schema names fragments fragments' operation)
    {root : Name} (hroot : schema.Keeps root) (hg : GroundedIn schema root operation) :
    mergeViolations schema.withoutUnusedScalars fragments' root operation =
      mergeViolations schema fragments root operation := by
  have hs : ∀ entry ∈ [(root, operation)],
      Settled schema names fragments operation entry.1 entry.2 := by
    intro entry hm
    rw [List.mem_singleton.mp hm]
    exact ⟨hroot, hg, .inl (.refl _)⟩
  unfold mergeViolations
  simp only [h.shapeConflicts_checked _ hs, h.fieldConflicts_checked _ hs]

end SettledOperation

end MockGraph
