import MockGraph.Proofs.Validation.Merging

/-!
# `Proofs/Validation/Acceptance`: a checked schema accepts no more documents

A document that passes the rules with a schema that was checked passes them with the schema as it was
built (`violations_of_checked`). So the check of a schema can make a document fail, because it names a
scalar that is dropped, but it makes none pass.

The converse fails: a document may declare a variable of a built-in scalar that nothing in the schema
refers to, and after the check there is no such type.
-/

set_option autoImplicit false

namespace MockGraph

open Syntax Relation TypeSystem

/-! ## 1. Fragments without fields on types that are not defined -/

/-- Fragments without the fields on types that are not defined. -/
abbrev resolvedAll (schema : TypeSystem) (fragments : List Fragment) : List Fragment :=
  fragments.map (·.resolved schema)

section Fragments

variable {schema : TypeSystem}

theorem fragmentNamed?_resolved (schema : TypeSystem) (fragments : List Fragment) (name : Name) :
    fragmentNamed? (resolvedAll schema fragments) name =
      (fragmentNamed? fragments name).map (·.resolved schema) := by
  rw [fragmentNamed?, fragmentNamed?, List.find?_map]
  rfl

theorem names_resolved (schema : TypeSystem) (fragments : List Fragment) :
    (resolvedAll schema fragments).map (·.name) = fragments.map (·.name) := by
  rw [List.map_map]
  rfl

theorem spreadsIn_resolved_checked (hs : schema.Standard) (hr : schema.HasObjectRoots)
    (fragment : Fragment) : Selection.spreadsIn (fragment.resolved schema).selections =
      Selection.spreadsIn (fragment.resolved schema.withoutUnusedScalars).selections :=
  spreadsIn_resolvedIn_checked hs hr fragment.typeCondition fragment.selections

theorem fragmentDeferrals_checked (hs : schema.Standard) (hr : schema.HasObjectRoots)
    (fragment : Fragment) : fragmentDeferrals schema (fragment.resolved schema) =
      fragmentDeferrals schema.withoutUnusedScalars
        (fragment.resolved schema.withoutUnusedScalars) :=
  deferralsIn_resolvedIn_checked hs hr fragment.typeCondition fragment.selections

theorem fragmentSpreads_checked (hs : schema.Standard) (hr : schema.HasObjectRoots)
    (fragments : List Fragment) : fragmentSpreads (resolvedAll schema fragments) =
      fragmentSpreads (resolvedAll schema.withoutUnusedScalars fragments) := by
  funext name
  unfold fragmentSpreads
  rw [fragmentNamed?_resolved, fragmentNamed?_resolved]
  cases fragmentNamed? fragments name with
  | none => rfl
  | some fragment => exact congrArg List.eraseDups (spreadsIn_resolved_checked hs hr fragment)

theorem reachableFragments_checked (hs : schema.Standard) (hr : schema.HasObjectRoots)
    (fragments : List Fragment) (set : List Selection) :
    reachableFragments (resolvedAll schema fragments) set =
      reachableFragments (resolvedAll schema.withoutUnusedScalars fragments) set := by
  rw [reachableFragments, reachableFragments, fragmentSpreads_checked hs hr, names_resolved,
    names_resolved]

end Fragments

/-! ## 2. Fragments that are reached -/

section Reached

variable {fragments : List Fragment} {set : List Selection} {name : Name}

/-- A name is that of a fragment that selections reach, or of none. -/
def Covered (fragments : List Fragment) (set : List Selection) (name : Name) : Prop :=
  ∀ fragment, fragmentNamed? fragments name = some fragment →
    name ∈ reachableFragments fragments set

theorem mem_names_of_named {fragment : Fragment}
    (h : fragmentNamed? fragments name = some fragment) :
    name ∈ (fragments.map (·.name)).eraseDups := by
  have hname : fragment.name = name := by simpa using List.find?_some h
  exact List.mem_eraseDups.mpr (List.mem_map.mpr ⟨fragment, List.mem_of_find?_eq_some h, hname⟩)

theorem covered_of_mem_spreadsIn (h : name ∈ Selection.spreadsIn set) :
    Covered fragments set name :=
  fun _ hf => mem_reach_of_mem h (mem_names_of_named hf)

theorem Covered.within {fragment : Fragment} (h : Covered fragments set name)
    (hf : fragmentNamed? fragments name = some fragment) {inner : Name}
    (hi : inner ∈ Selection.spreadsIn fragment.selections) : Covered fragments set inner :=
  fun _ hinner => mem_reach_of_next (h fragment hf) ((mem_fragmentSpreads_of_named hf).mpr hi)
    (mem_names_of_named hinner)

theorem Covered.mem_reachedBy {operation : Operation} {fragment : Fragment}
    (h : Covered fragments operation.selections name)
    (hf : fragmentNamed? fragments name = some fragment) :
    fragment ∈ reachedBy fragments operation :=
  List.mem_filterMap.mpr ⟨name, h fragment hf, hf⟩

end Reached

/-! ## 3. Rules that look at one thing after the other -/

section Rules

variable {schema : TypeSystem} {scope : List VariableDefinition}

theorem variableTypeViolations_of_checked {declared : VariableDefinition}
    (h : variableTypeViolations schema.withoutUnusedScalars declared = []) :
    variableTypeViolations schema declared = [] := by
  have hkeeps : schema.Keeps declared.type.innerName := by
    unfold variableTypeViolations at h
    split at h
    · cases h
    · next type ht => exact keeps_of_type? ht
  unfold variableTypeViolations at h ⊢
  rw [← hkeeps, ← funext (valueViolations_checked [] hkeeps)]
  exact h

theorem variableDefinitionViolations_of_checked
    (h : variableDefinitionViolations schema.withoutUnusedScalars scope = []) :
    variableDefinitionViolations schema scope = [] := by
  unfold variableDefinitionViolations at h ⊢
  simp only [List.append_eq_nil_iff, List.flatMap_eq_nil_iff, directiveViolations_checked] at h ⊢
  exact ⟨h.1, fun declared hm =>
    ⟨variableTypeViolations_of_checked (h.2 declared hm).1, (h.2 declared hm).2⟩⟩

mutual

theorem selectionViolations_congr {fragments fragments' : List Fragment}
    (h : ∀ name, (fragmentNamed? fragments name).map (·.typeCondition) =
      (fragmentNamed? fragments' name).map (·.typeCondition)) (outer : Name) :
    ∀ selection, selectionViolations schema fragments scope outer selection =
      selectionViolations schema fragments' scope outer selection
  | .field alias? name arguments directives nested => by
    rw [selectionViolations, selectionViolations]
    cases schema.field outer name with
    | error mismatch => rfl
    | ok definition =>
      simp only [selectionsViolations_congr h definition.type.innerName nested]
  | .spread name directives => by
    rw [selectionViolations, selectionViolations]
    have hname := h name
    cases hf : fragmentNamed? fragments name <;> cases hf' : fragmentNamed? fragments' name <;>
      simp_all
  | .inline none directives nested => by
    rw [selectionViolations, selectionViolations, selectionsViolations_congr h outer nested]
  | .inline (some condition) directives nested => by
    rw [selectionViolations, selectionViolations, selectionsViolations_congr h condition nested]

/-- Of the fragments that selections spread only the conditions are looked at. -/
theorem selectionsViolations_congr {fragments fragments' : List Fragment}
    (h : ∀ name, (fragmentNamed? fragments name).map (·.typeCondition) =
      (fragmentNamed? fragments' name).map (·.typeCondition)) (outer : Name) :
    ∀ set, selectionsViolations schema fragments scope outer set =
      selectionsViolations schema fragments' scope outer set
  | [] => rfl
  | selection :: rest => by
    rw [selectionsViolations, selectionsViolations, selectionViolations_congr h outer selection,
      selectionsViolations_congr h outer rest]

end

theorem fragmentViolations_congr {fragments fragments' : List Fragment}
    (h : ∀ name, (fragmentNamed? fragments name).map (·.typeCondition) =
      (fragmentNamed? fragments' name).map (·.typeCondition))
    (hs : fragmentSpreads fragments = fragmentSpreads fragments') (fragment : Fragment) :
    fragmentViolations schema fragments scope fragment =
      fragmentViolations schema fragments' scope fragment := by
  rw [fragmentViolations, fragmentViolations, fragmentStrays, fragmentStrays, hs,
    selectionsViolations_congr h]

theorem subscriptionViolations_congr {names : Name → Prop} {fragments fragments' : List Fragment}
    (h : Alike names fragments fragments') (hl : fragments.length = fragments'.length)
    {set : List Selection} (hn : ∀ name ∈ Selection.spreadsIn set, names name) :
    subscriptionViolations fragments set = subscriptionViolations fragments' set := by
  have hinside : ∀ entry ∈ [("", set)], Inside names fragments set entry.2 := by
    intro entry hm
    rw [List.mem_singleton.mp hm]
    exact .inl (.refl set)
  have hcondition : haveCondition (fragmentHasCondition fragments fragments'.length) set =
      haveCondition (fragmentHasCondition fragments' fragments'.length) set :=
    haveCondition_congr set fun name hm =>
      fragmentHasCondition_congr h.toAgreeOn fragments'.length (hn name hm)
  simp only [subscriptionViolations, h.fieldsAt hn hinside, hl, hcondition]

end Rules

theorem typeConditions_checked (schema : TypeSystem) (fragments : List Fragment) (name : Name) :
    (fragmentNamed? (resolvedAll schema fragments) name).map (·.typeCondition) =
      (fragmentNamed? (resolvedAll schema.withoutUnusedScalars fragments) name).map
        (·.typeCondition) := by
  rw [fragmentNamed?_resolved, fragmentNamed?_resolved, Option.map_map, Option.map_map]
  rfl

/-! ## 4. Operations -/

/-- An operation on the type `root` without the fields on types that are not defined. -/
def Syntax.Operation.resolved (schema : TypeSystem) (root : Name) (operation : Operation) :
    Operation :=
  { operation with selections := Selection.resolvedIn schema root operation.selections }

section Operations

variable {schema : TypeSystem} {fragments : List Fragment} {operation : Operation} {root : Name}

/-- What it takes that nothing is wrong with an operation on the type `root`. That no fragment strays
is part of what it takes for the fragments, so the rules for merging are among these. -/
structure ValidOperation (schema : TypeSystem) (fragments : List Fragment) (operation : Operation)
    (root : Name) : Prop where
  directives : directiveViolations schema operation.variableDefinitions operation.kind.location
    operation.directives = []
  declarations : variableDefinitionViolations schema operation.variableDefinitions = []
  selections : selectionsViolations schema fragments operation.variableDefinitions root
    operation.selections = []
  reached : ∀ fragment ∈ reachedBy fragments operation,
    fragmentViolations schema fragments operation.variableDefinitions fragment = []
  used : unusedVariables operation.variableDefinitions
    (variablesUsed operation (reachedBy fragments operation)) = []
  merge : mergeViolations schema fragments root operation.selections = []
  subscription : operation.kind = .subscription →
    subscriptionRootViolations schema fragments (reachedBy fragments operation) operation root = []

theorem not_strays_of_fragmentViolations {scope : List VariableDefinition} {fragment : Fragment}
    (h : fragmentViolations schema fragments scope fragment = []) :
    fragmentStrays fragments fragment = false := by
  simp only [fragmentViolations, List.append_eq_nil_iff] at h
  simpa [findingIf] using h.1.1.2

theorem operationViolations_eq_nil_iff :
    operationViolations schema fragments operation root = [] ↔
      ValidOperation schema fragments operation root := by
  -- With a fragment that strays the rules for merging are not applied, but then it is refused itself.
  have hstrays : (∀ fragment ∈ reachedBy fragments operation,
      fragmentViolations schema fragments operation.variableDefinitions fragment = []) →
      (reachedBy fragments operation).any (fragmentStrays fragments) = false := fun h =>
    List.any_eq_false.mpr fun fragment hm =>
      Bool.not_eq_true _ ▸ not_strays_of_fragmentViolations (h fragment hm)
  have hsubscription : (if operation.kind = .subscription then
        subscriptionRootViolations schema fragments (reachedBy fragments operation) operation root
      else []) = [] ↔ (operation.kind = .subscription →
        subscriptionRootViolations schema fragments (reachedBy fragments operation) operation root =
          []) := by
    split <;> simp_all
  simp only [operationViolations, List.append_eq_nil_iff, List.flatMap_eq_nil_iff, hsubscription]
  constructor
  · rintro ⟨⟨⟨⟨⟨⟨hd, hv⟩, hs⟩, hf⟩, hu⟩, hm⟩, hsub⟩
    rw [hstrays hf] at hm
    exact ⟨hd, hv, hs, hf, hu, hm, hsub⟩
  · intro h
    refine ⟨⟨⟨⟨⟨⟨h.directives, h.declarations⟩, h.selections⟩, h.reached⟩, h.used⟩, ?_⟩,
      h.subscription⟩
    rw [hstrays h.reached]
    exact h.merge

/-- An operation is valid with the checked schema. -/
abbrev ValidChecked (schema : TypeSystem) (fragments : List Fragment) (operation : Operation)
    (root : Name) : Prop :=
  ValidOperation schema.withoutUnusedScalars (resolvedAll schema.withoutUnusedScalars fragments)
    (operation.resolved schema.withoutUnusedScalars root) root

namespace ValidChecked

theorem grounded (h : ValidChecked schema fragments operation root) (hs : schema.Standard)
    (hroot : schema.Keeps root) :
    GroundedIn schema root (operation.resolved schema.withoutUnusedScalars root).selections :=
  groundedIn_of_violations hs hroot h.selections

/-- The operation is the same with both schemas. -/
theorem resolved_eq (h : ValidChecked schema fragments operation root) (hs : schema.Standard)
    (hroot : schema.Keeps root) :
    operation.resolved schema root = operation.resolved schema.withoutUnusedScalars root := by
  unfold Operation.resolved
  rw [resolvedIn_checked hs hroot operation.selections (h.grounded hs hroot)]

/-- So is a fragment that it reaches, and it does not stray. -/
theorem of_reached (h : ValidChecked schema fragments operation root) (hs : schema.Standard)
    {name : Name} {fragment : Fragment}
    (hc : Covered (resolvedAll schema.withoutUnusedScalars fragments)
      (operation.resolved schema.withoutUnusedScalars root).selections name)
    (hf : fragmentNamed? (resolvedAll schema.withoutUnusedScalars fragments) name =
      some fragment) :
    fragmentNamed? (resolvedAll schema fragments) name = some fragment ∧
      (schema.Keeps fragment.typeCondition ∧
        GroundedIn schema fragment.typeCondition fragment.selections) ∧
      fragmentStrays (resolvedAll schema.withoutUnusedScalars fragments) fragment = false := by
  have hfragment := h.reached fragment (hc.mem_reachedBy hf)
  have hstrays := not_strays_of_fragmentViolations hfragment
  simp only [fragmentViolations, List.append_eq_nil_iff] at hfragment
  obtain ⟨⟨⟨hcondition, -⟩, -⟩, hselections⟩ := hfragment
  have hkeeps : schema.Keeps fragment.typeCondition := keeps_of_conditionViolations hcondition
  have hgrounded := groundedIn_of_violations hs hkeeps hselections
  refine ⟨?_, ⟨hkeeps, hgrounded⟩, hstrays⟩
  rw [fragmentNamed?_resolved] at hf ⊢
  obtain ⟨declared, hd, rfl⟩ := Option.map_eq_some_iff.mp hf
  have hsame : Selection.resolvedIn schema declared.typeCondition declared.selections =
      Selection.resolvedIn schema.withoutUnusedScalars declared.typeCondition declared.selections :=
    resolvedIn_checked hs hkeeps declared.selections hgrounded
  rw [hd, Option.map_some, Fragment.resolved, hsame]
  rfl

theorem alike (h : ValidChecked schema fragments operation root) (hs : schema.Standard)
    (hr : schema.HasObjectRoots) :
    Alike (Covered (resolvedAll schema.withoutUnusedScalars fragments)
        (operation.resolved schema.withoutUnusedScalars root).selections)
      (resolvedAll schema fragments)
      (resolvedAll schema.withoutUnusedScalars fragments) := by
  have hnamed : ∀ name, Covered (resolvedAll schema.withoutUnusedScalars fragments)
        (operation.resolved schema.withoutUnusedScalars root).selections name →
      fragmentNamed? (resolvedAll schema fragments) name =
        fragmentNamed? (resolvedAll schema.withoutUnusedScalars fragments) name := by
    intro name hc
    cases hf : fragmentNamed? (resolvedAll schema.withoutUnusedScalars fragments) name with
    | some fragment => exact (h.of_reached hs hc hf).1
    | none =>
      rw [fragmentNamed?_resolved, Option.map_eq_none_iff] at hf ⊢
      exact hf
  refine ⟨⟨hnamed, fun name fragment hc hf inner hi => ?_⟩, fragmentSpreads_checked hs hr fragments,
    fun name hc hcycle => ?_⟩
  · exact hc.within ((hnamed name hc).symm.trans hf) hi
  · rw [fragmentSpreads_checked hs hr] at hcycle
    cases hf : fragmentNamed? (resolvedAll schema.withoutUnusedScalars fragments) name with
    | some fragment =>
      -- A fragment on a cycle strays, and none that is reached does.
      obtain rfl : fragment.name = name := by simpa using List.find?_some hf
      exact not_cyclic_of_strays (h.of_reached hs hc hf).2.2 hcycle
    | none =>
      obtain ⟨inner, hstep, -⟩ := TransGen.head'_iff.mp hcycle
      simp [fragmentSpreads, hf] at hstep

theorem settled (h : ValidChecked schema fragments operation root) (hs : schema.Standard)
    (hr : schema.HasObjectRoots) :
    SettledOperation schema
      (Covered (resolvedAll schema.withoutUnusedScalars fragments)
        (operation.resolved schema.withoutUnusedScalars root).selections)
      (resolvedAll schema fragments)
      (resolvedAll schema.withoutUnusedScalars fragments)
      (operation.resolved schema.withoutUnusedScalars root).selections where
  standard := hs
  alike := h.alike hs hr
  spreads := fun _ hn => covered_of_mem_spreadsIn hn
  grounded := fun name _ hc hf =>
    (h.of_reached hs hc (((h.alike hs hr).named name hc).symm.trans hf)).2.1

/-- The same fragments are reached. -/
theorem reachedBy_eq (h : ValidChecked schema fragments operation root) (hs : schema.Standard)
    (hr : schema.HasObjectRoots) :
    reachedBy (resolvedAll schema fragments)
        (operation.resolved schema.withoutUnusedScalars root) =
      reachedBy (resolvedAll schema.withoutUnusedScalars fragments)
        (operation.resolved schema.withoutUnusedScalars root) := by
  unfold reachedBy
  rw [reachableFragments_checked hs hr]
  exact List.filterMap_congr fun name hm => (h.alike hs hr).named name fun _ _ => hm

/-- What is deferred in the operation and in the fragments that it reaches is the same. -/
theorem deferrals_eq (h : ValidChecked schema fragments operation root) (hs : schema.Standard)
    (hr : schema.HasObjectRoots) (hroot : schema.Keeps root) :
    (Selection.deferralsIn schema root
        (operation.resolved schema.withoutUnusedScalars root).selections =
      Selection.deferralsIn schema.withoutUnusedScalars root
        (operation.resolved schema.withoutUnusedScalars root).selections) ∧
    ∀ fragment ∈ reachedBy (resolvedAll schema.withoutUnusedScalars fragments)
        (operation.resolved schema.withoutUnusedScalars root),
      fragmentDeferrals schema fragment =
        fragmentDeferrals schema.withoutUnusedScalars fragment := by
  refine ⟨?_, fun fragment hm => ?_⟩
  · have hsame := deferralsIn_resolvedIn_checked hs hr root operation.selections
    rwa [resolvedIn_checked hs hroot operation.selections (h.grounded hs hroot)] at hsame
  · obtain ⟨name, hreached, hf⟩ := List.mem_filterMap.mp hm
    have hbefore := (h.of_reached hs (fun _ _ => hreached) hf).1
    rw [fragmentNamed?_resolved] at hf hbefore
    obtain ⟨declared, hd, rfl⟩ := Option.map_eq_some_iff.mp hf
    rw [hd, Option.map_some, Option.some.injEq] at hbefore
    have hsame := fragmentDeferrals_checked hs hr declared
    rwa [hbefore] at hsame

/-- A fragment that the operation reaches is valid without the check too. -/
theorem fragment_before (h : ValidChecked schema fragments operation root) (hs : schema.Standard)
    (hr : schema.HasObjectRoots) {fragment : Fragment}
    (hm : fragment ∈ reachedBy (resolvedAll schema.withoutUnusedScalars fragments)
      (operation.resolved schema.withoutUnusedScalars root)) :
    fragmentViolations schema (resolvedAll schema fragments) operation.variableDefinitions
      fragment = [] := by
  obtain ⟨name, hname, hf⟩ := List.mem_filterMap.mp hm
  obtain ⟨-, ⟨hkeeps, hg⟩, -⟩ := h.of_reached hs (fun _ _ => hname) hf
  have hchecked := h.reached fragment hm
  rw [fragmentViolations_congr (typeConditions_checked schema fragments)
    (fragmentSpreads_checked hs hr fragments)]
  rw [fragmentViolations, conditionViolations_checked hkeeps, directiveViolations_checked,
    selectionsViolations_checked hs hkeeps _ hg] at hchecked
  exact hchecked

/-- **An operation that is valid with the checked schema is valid without the check.** -/
theorem before (h : ValidChecked schema fragments operation root) (hs : schema.Standard)
    (hr : schema.HasObjectRoots) (hroot : schema.Keeps root) :
    ValidOperation schema (resolvedAll schema fragments)
      (operation.resolved schema.withoutUnusedScalars root) root where
  directives := directiveViolations_checked schema _ _ _ ▸ h.directives
  declarations := variableDefinitionViolations_of_checked h.declarations
  selections := by
    -- First the other fragments, which have the same conditions, and then the other schema.
    rw [selectionsViolations_congr (typeConditions_checked schema fragments),
      ← selectionsViolations_checked hs hroot _ (h.grounded hs hroot)]
    exact h.selections
  reached := fun fragment hm => h.fragment_before hs hr (h.reachedBy_eq hs hr ▸ hm)
  used := h.reachedBy_eq hs hr ▸ h.used
  merge := by
    rw [← (h.settled hs hr).mergeViolations_checked hroot (h.grounded hs hroot)]
    exact h.merge
  subscription := by
    intro hkind
    obtain ⟨hdeferrals, hreached⟩ := h.deferrals_eq hs hr hroot
    rw [h.reachedBy_eq hs hr, subscriptionRootViolations, hdeferrals, List.flatMap_congr hreached,
      subscriptionViolations_congr (h.alike hs hr) (by simp) (h.settled hs hr).spreads]
    exact h.subscription hkind

end ValidChecked

end Operations

/-! ## 5. Documents -/

section Documents

variable {schema : TypeSystem} {document : Document}

theorem resolvedOperations_eq (schema : TypeSystem) (document : Document) :
    document.resolvedOperations schema = document.operations.filterMap fun operation =>
      (schema.root? operation.kind).map fun root => (operation.resolved schema root, root) := rfl

theorem root?_checked (schema : TypeSystem) (kind : OperationKind) :
    schema.withoutUnusedScalars.root? kind = schema.root? kind := rfl

/-- All operations of a document pass the rules with the checked schema. -/
abbrev OperationsPass (schema : TypeSystem) (document : Document) : Prop :=
  ∀ entry ∈ document.resolvedOperations schema.withoutUnusedScalars,
    operationViolations schema.withoutUnusedScalars
      (resolvedAll schema.withoutUnusedScalars document.fragments) entry.1 entry.2 = []

theorem OperationsPass.valid (h : OperationsPass schema document) {operation : Operation}
    {root : Name} (hm : operation ∈ document.operations)
    (hroot : schema.root? operation.kind = some root) :
    ValidChecked schema document.fragments operation root := by
  have hentry : (operation.resolved schema.withoutUnusedScalars root, root) ∈
      document.resolvedOperations schema.withoutUnusedScalars :=
    List.mem_filterMap.mpr ⟨operation, hm, by rw [root?_checked, hroot]; rfl⟩
  have hpasses := h _ hentry
  exact operationViolations_eq_nil_iff.mp hpasses

/-- Each of them stands on a root type that keeps its meaning. -/
theorem OperationsPass.of_mem (h : OperationsPass schema document) (hs : schema.Standard)
    (hr : schema.HasObjectRoots) {entry : Operation × Name}
    (hm : entry ∈ document.resolvedOperations schema.withoutUnusedScalars) :
    ∃ operation root, entry = (operation.resolved schema.withoutUnusedScalars root, root) ∧
      schema.Keeps root ∧ ValidChecked schema document.fragments operation root := by
  rw [resolvedOperations_eq] at hm
  obtain ⟨operation, ho, he⟩ := List.mem_filterMap.mp hm
  obtain ⟨root, hroot, rfl⟩ := Option.map_eq_some_iff.mp he
  exact ⟨operation, root, rfl, hr.keeps hs hroot, h.valid ho hroot⟩

/-- The operations of a document that passes the rules are the same with both schemas. -/
theorem OperationsPass.resolvedOperations_eq (h : OperationsPass schema document)
    (hs : schema.Standard) (hr : schema.HasObjectRoots) :
    document.resolvedOperations schema =
      document.resolvedOperations schema.withoutUnusedScalars := by
  rw [MockGraph.resolvedOperations_eq, MockGraph.resolvedOperations_eq]
  refine List.filterMap_congr fun operation hm => ?_
  rw [root?_checked]
  cases hroot : schema.root? operation.kind with
  | none => rfl
  | some root =>
    rw [Option.map_some, Option.map_some, (h.valid hm hroot).resolved_eq hs (hr.keeps hs hroot)]

/-- What is left of a document that passes the rules without the fields on types that are not defined
passes with both schemas. -/
theorem resolvedViolations_of_checked (hs : schema.Standard) (hr : schema.HasObjectRoots)
    (h : resolvedViolations schema.withoutUnusedScalars
      (document.resolvedOperations schema.withoutUnusedScalars)
      (resolvedAll schema.withoutUnusedScalars document.fragments) = []) :
    resolvedViolations schema (document.resolvedOperations schema)
      (resolvedAll schema document.fragments) = [] := by
  simp only [resolvedViolations, List.append_eq_nil_iff, List.flatMap_eq_nil_iff] at h ⊢
  obtain ⟨⟨⟨hnames, hlabels⟩, hroots⟩, hoperations⟩ := h
  have hpass : OperationsPass schema document := hoperations
  have hspreads : (resolvedAll schema document.fragments).flatMap
        (fun fragment => Selection.spreadsIn fragment.selections) =
      (resolvedAll schema.withoutUnusedScalars document.fragments).flatMap
        fun fragment => Selection.spreadsIn fragment.selections := by
    simp only [resolvedAll, List.flatMap_map, spreadsIn_resolved_checked hs hr]
  have hfragments : (resolvedAll schema document.fragments).flatMap (fragmentDeferrals schema) =
      (resolvedAll schema.withoutUnusedScalars document.fragments).flatMap
        (fragmentDeferrals schema.withoutUnusedScalars) := by
    simp only [resolvedAll, List.flatMap_map, fragmentDeferrals_checked hs hr]
  have hdeferrals : (document.resolvedOperations schema.withoutUnusedScalars).flatMap
        (fun entry => Selection.deferralsIn schema entry.2 entry.1.selections) =
      (document.resolvedOperations schema.withoutUnusedScalars).flatMap
        fun entry => Selection.deferralsIn schema.withoutUnusedScalars entry.2
          entry.1.selections := by
    refine List.flatMap_congr fun entry hm => ?_
    obtain ⟨operation, root, rfl, hroot, hvalid⟩ := hpass.of_mem hs hr hm
    exact (hvalid.deferrals_eq hs hr hroot).1
  rw [hpass.resolvedOperations_eq hs hr, hspreads, hfragments, hdeferrals, names_resolved]
  rw [names_resolved] at hnames
  refine ⟨⟨⟨hnames, hlabels⟩, hroots⟩, fun entry hm => ?_⟩
  obtain ⟨operation, root, rfl, hroot, hvalid⟩ := hpass.of_mem hs hr hm
  exact operationViolations_eq_nil_iff.mpr (hvalid.before hs hr hroot)

/-- **A document that passes with the checked schema passes without the check.** -/
theorem violations_of_checked (hs : schema.Standard) (hr : schema.HasObjectRoots)
    (h : document.violations schema.withoutUnusedScalars = []) : document.violations schema = [] := by
  simp only [Document.violations, List.append_eq_nil_iff] at h ⊢
  exact ⟨h.1, resolvedViolations_of_checked hs hr h.2⟩

end Documents

end MockGraph
