import MockGraph.Proofs.Walk.Cycles

/-!
# `Proofs/Walk/Progress`: valid input cannot go wrong

A schema is well formed if the types that it names are there, and a document is valid against it if
the same can be said of the fields, types and fragments that the document names and no fragment
reaches itself. Both are said of everything that is written, wherever a walk comes.

Main statement, `generate_of_valid`: from a well formed schema and a document that is valid against
it there is a mock, and it is an object. So none of the failures of a walk is possible: no mismatch,
no fragment that is not defined, and none within itself.

The type that a walk is on is at every moment the one that the document was checked on. So a walk
comes only to what is `Sound`, and of such walks it is known that they fail on a cycle only.
-/

set_option autoImplicit false

namespace MockGraph

open Syntax Walk

/-! ## 1. Well formed schemas -/

/-- A name is that of a type whose values can be in a response. -/
def TypeSystem.IsOutput (schema : TypeSystem) (name : Name) : Prop :=
  ∃ kind, schema.kind? name = some kind ∧ kind ≠ .inputObject

/-- A name is that of a type on which fields can be selected. -/
def TypeSystem.IsComposite (schema : TypeSystem) (name : Name) : Prop :=
  ∃ kind, schema.kind? name = some kind ∧ kind.isComposite = true

instance (schema : TypeSystem) (name : Name) : Decidable (schema.IsOutput name) :=
  decidable_of_iff ((schema.kind? name).any (· ≠ .inputObject)) (by
    simp [TypeSystem.IsOutput, Option.any_eq_true])

instance (schema : TypeSystem) (name : Name) : Decidable (schema.IsComposite name) :=
  decidable_of_iff ((schema.kind? name).any (·.isComposite)) (by
    simp [TypeSystem.IsComposite, Option.any_eq_true])

/-- The types that a schema names are there. -/
structure TypeSystem.WellFormed (schema : TypeSystem) : Prop where
  /-- Every declared field has an output type. -/
  fields : ∀ type ∈ schema.types, ∀ field ∈ type.fields, schema.IsOutput field.type.innerName
  /-- So have the fields that every query root has. -/
  introspection : ∀ field ∈ [schemaField, typeField], schema.IsOutput field.type.innerName
  /-- Every root type is defined. -/
  roots : ∀ root ∈ schema.roots, (schema.type? root.2).isSome

theorem FieldType.innerName_ofTypeRef (type : TypeRef) :
    (FieldType.ofTypeRef type).innerName = type.innerName := by
  have hname : ∀ name, (FieldType.ofName name).innerName = name := by
    intro name
    unfold FieldType.ofName
    split <;> rfl
  induction type with
  | named name => exact hname name
  | nonNullNamed name => exact hname name
  | list item ih => exact ih
  | nonNullList item ih => exact ih

section Target

variable {schema : TypeSystem} {cursor name : Name} {definition : FieldDefinition}

/-- A field of a well formed schema has an output type, other than `__typename` perhaps. -/
theorem TypeSystem.WellFormed.isOutput (hs : schema.WellFormed) (hn : name ≠ "__typename")
    (hf : schema.field cursor name = .ok definition) :
    schema.IsOutput definition.type.innerName := by
  unfold TypeSystem.field at hf
  split at hf
  · cases hf
  next type ht =>
  split at hf
  · cases hf
  next found hfound =>
  cases hf
  rcases Option.or_eq_some_iff.mp hfound with hdeclared | ⟨-, hmeta⟩
  · exact hs.fields type (List.mem_of_find?_eq_some ht) _ (List.mem_of_find?_eq_some hdeclared)
  · -- A field that the type does not declare is one of introspection.
    unfold TypeSystem.metaField? at hmeta
    rw [if_neg fun h => hn h.1] at hmeta
    split at hmeta
    · split at hmeta
      · cases hmeta
        exact hs.introspection _ (by simp)
      · cases hmeta
        exact hs.introspection _ (by simp)
      · cases hmeta
    · cases hmeta

/-- What a field leads to is the type that its definition names. -/
theorem target_of_field {kind : TypeKind} (hf : schema.field cursor name = .ok definition)
    (hk : schema.kind? definition.type.innerName = some kind) :
    target schema cursor name =
      .ok ⟨definition.type.innerName, kind, (FieldType.ofTypeRef definition.type).unwrap.2⟩ := by
  have ht : schema.fieldType cursor name = .ok (FieldType.ofTypeRef definition.type) := by
    rw [TypeSystem.fieldType, hf]
    rfl
  simp only [target, ht, bind, Except.bind, FieldType.innerName_ofTypeRef, hk]
  rfl

end Target

/-! ## 2. Valid documents -/

mutual

/-- Whether the fields in a selection exist on the types they are selected on, and the types of its
conditions are composite. -/
def Fits (schema : TypeSystem) (cursor : Name) : Selection → Prop
  | .field _ name _ _ nested =>
    ∃ definition, schema.field cursor name = .ok definition ∧
      FitIn schema definition.type.innerName nested
  | .spread _ _ => True
  | .inline condition _ nested =>
    (∀ type, condition = some type → schema.IsComposite type) ∧
      FitIn schema (condition.getD cursor) nested

def FitIn (schema : TypeSystem) (cursor : Name) : List Selection → Prop
  | [] => True
  | selection :: rest => Fits schema cursor selection ∧ FitIn schema cursor rest

end

/-- A document is valid against a schema, as far as one of its operations is concerned. -/
structure Syntax.Document.ValidFor (document : Document) (schema : TypeSystem)
    (operation : Operation) : Prop where
  /-- The operation has a root type, and it fits there. -/
  root : ∃ root, schema.root? operation.kind = some root ∧ FitIn schema root operation.selections
  /-- Every fragment is on a composite type and fits there. -/
  fragments : ∀ fragment ∈ document.fragments, schema.IsComposite fragment.typeCondition ∧
    FitIn schema fragment.typeCondition fragment.selections
  /-- Every spread is of a fragment of the document. -/
  spreads : ∀ name ∈ Selection.spreadsIn operation.selections ++
      document.fragments.flatMap fun fragment => Selection.spreadsIn fragment.selections,
    name ∈ document.fragments.map (·.name)
  unique : (document.fragments.map (·.name)).Nodup
  /-- No fragment reaches itself. -/
  acyclic : ∀ name, ¬ Relation.TransGen
    (fun name inner => inner ∈ fragmentSpreads document.fragments name) name name

/-! ## 3. Where the walk of a valid document comes -/

theorem selectable_of_fits {schema : TypeSystem} (hs : schema.WellFormed) {cursor : Name}
    {selection : Selection} (h : Fits schema cursor selection) :
    Visit.Selectable schema ⟨cursor, selection⟩ := by
  cases selection with
  | field alias? name arguments directives nested =>
    by_cases hn : name = "__typename"
    · exact .inl hn
    rw [Fits] at h
    obtain ⟨definition, hf, -⟩ := h
    obtain ⟨kind, hk, hne⟩ := hs.isOutput hn hf
    exact .inr ⟨_, target_of_field hf hk, hne⟩
  | spread | inline => trivial

/-- The type that a walk comes to below a field is the one that the field's definition names. -/
theorem eq_of_descent? {schema : TypeSystem} (hs : schema.WellFormed) {cursor name type : Name}
    {definition : FieldDefinition} (hf : schema.field cursor name = .ok definition)
    (hd : descent? schema cursor name = some type) : type = definition.type.innerName := by
  unfold descent? at hd
  by_cases hn : name = "__typename"
  · rw [if_pos hn] at hd
    cases hd
  obtain ⟨kind, hk, -⟩ := hs.isOutput hn hf
  rw [if_neg hn, target_of_field hf hk] at hd
  by_cases hc : kind.isComposite = true
  · simpa [hc] using hd.symm
  · simp [hc] at hd

mutual

/-- What a walk comes to in a selection that fits can be selected. -/
theorem selectable_visits {schema : TypeSystem} (hs : schema.WellFormed) {cursor : Name} :
    ∀ {selection}, Fits schema cursor selection →
      ∀ visit ∈ visits schema cursor selection, visit.Selectable schema
  | .field alias? name arguments directives nested, h, visit, hm => by
    rw [visits] at hm
    rcases List.mem_cons.mp hm with rfl | hm
    · exact selectable_of_fits hs h
    rw [Fits] at h
    obtain ⟨definition, hf, hnested⟩ := h
    cases hd : descent? schema cursor name with
    | none => simp [hd] at hm
    | some type =>
      rw [hd] at hm
      rw [← eq_of_descent? hs hf hd] at hnested
      exact selectable_visitsIn hs hnested visit hm
  | .spread name directives, h, visit, hm => by
    rw [visits, List.mem_singleton] at hm
    exact hm ▸ selectable_of_fits hs h
  | .inline condition directives nested, h, visit, hm => by
    rw [visits] at hm
    rcases List.mem_cons.mp hm with rfl | hm
    · exact selectable_of_fits hs h
    rw [Fits] at h
    exact selectable_visitsIn hs h.2 visit hm

theorem selectable_visitsIn {schema : TypeSystem} (hs : schema.WellFormed) {cursor : Name} :
    ∀ {set}, FitIn schema cursor set →
      ∀ visit ∈ visitsIn schema cursor set, visit.Selectable schema
  | [], _, visit, hm => by simp [visitsIn] at hm
  | selection :: rest, h, visit, hm => by
    rw [visitsIn] at hm
    rw [FitIn] at h
    rcases List.mem_append.mp hm with hm | hm
    · exact selectable_visits hs h.1 visit hm
    · exact selectable_visitsIn hs h.2 visit hm

end

mutual

/-- A walk comes to no other spreads than those that are written. -/
theorem spreads_visits {schema : TypeSystem} {cursor name : Name} :
    ∀ selection, name ∈ spreadNames (visits schema cursor selection) → name ∈ selection.spreads
  | .field alias? field arguments directives nested, h => by
    rw [visits, spreadNames_field] at h
    rw [Selection.spreads]
    cases hd : descent? schema cursor field with
    | none => simp [hd] at h
    | some type =>
      rw [hd] at h
      exact spreads_visitsIn nested h
  | .spread other directives, h => by
    rwa [visits, spreadNames_spread] at h
  | .inline condition directives nested, h => by
    rw [visits, spreadNames_inline] at h
    rw [Selection.spreads]
    exact spreads_visitsIn nested h

theorem spreads_visitsIn {schema : TypeSystem} {cursor name : Name} :
    ∀ set, name ∈ Walk.spreadsIn schema cursor set → name ∈ Selection.spreadsIn set
  | [], h => by simp [Walk.spreadsIn, visitsIn] at h
  | selection :: rest, h => by
    rw [Walk.spreadsIn, visitsIn, spreadNames_append] at h
    rw [Selection.spreadsIn]
    rcases List.mem_append.mp h with h | h
    · exact List.mem_append_left _ (spreads_visits selection h)
    · exact List.mem_append_right _ (spreads_visitsIn rest h)

end

section Valid

variable {schema : TypeSystem} {document : Document} {operation : Operation} {registry : Registry}
  {name inner : Name}

theorem mem_fragmentSpreads (h : Spreads ⟨schema, registry, document.fragments⟩ name inner) :
    inner ∈ fragmentSpreads document.fragments name := by
  obtain ⟨fragment, hf, hm⟩ := h
  have hnamed : fragmentNamed? document.fragments name = some fragment := hf
  rw [fragmentSpreads, hnamed]
  exact List.mem_eraseDups.mpr (spreads_visitsIn _ hm)

theorem Syntax.Document.ValidFor.defined (hd : document.ValidFor schema operation)
    (hn : name ∈ Selection.spreadsIn operation.selections ++
      document.fragments.flatMap fun fragment => Selection.spreadsIn fragment.selections) :
    ∃ fragment ∈ document.fragments, fragmentNamed? document.fragments name = some fragment := by
  obtain ⟨fragment, hm, rfl⟩ := List.mem_map.mp (hd.spreads name hn)
  cases hf : fragmentNamed? document.fragments fragment.name with
  | none => exact absurd (List.find?_eq_none.mp hf fragment hm) (by simp)
  | some found => exact ⟨found, List.mem_of_find?_eq_some hf, rfl⟩

/-- A walk of a valid document finds what it comes to. -/
theorem Syntax.Document.ValidFor.soundIn (hd : document.ValidFor schema operation)
    (hs : schema.WellFormed) {root : Name} (hr : schema.root? operation.kind = some root) :
    SoundIn ⟨schema, registry, document.fragments⟩ root operation.selections := by
  obtain ⟨root', hr', hfit⟩ := hd.root
  cases hr.symm.trans hr'
  refine ⟨selectable_visitsIn hs hfit, fun name hreach => ?_⟩
  have hwritten : name ∈ Selection.spreadsIn operation.selections ++
      document.fragments.flatMap fun fragment => Selection.spreadsIn fragment.selections := by
    cases hreach with
    | direct hn => exact List.mem_append_left _ (spreads_visitsIn _ hn)
    | through _ hspreads =>
      obtain ⟨fragment, hf, hm⟩ := hspreads
      refine List.mem_append_right _ (List.mem_flatMap.mpr ⟨fragment, ?_, spreads_visitsIn _ hm⟩)
      exact List.mem_of_find?_eq_some hf
  obtain ⟨fragment, hm, hf⟩ := hd.defined hwritten
  exact ⟨fragment, hf, selectable_visitsIn hs (hd.fragments fragment hm).2⟩

theorem Syntax.Document.ValidFor.not_cyclic (hd : document.ValidFor schema operation)
    (name : Name) : ¬ Cyclic ⟨schema, registry, document.fragments⟩ name := by
  intro hc
  have hwritten : ∀ name inner, Spreads ⟨schema, registry, document.fragments⟩ name inner →
      inner ∈ fragmentSpreads document.fragments name := fun _ _ => mem_fragmentSpreads
  exact hd.acyclic name (Relation.TransGen.mono hwritten name name hc)

/-- The walk of a valid document gives an object. -/
theorem Syntax.Document.ValidFor.perform_ok (hd : document.ValidFor schema operation)
    (hs : schema.WellFormed) {root : Name} (hr : schema.root? operation.kind = some root)
    (registry : Registry) (calls : Calls) : ∃ mock,
      (perform ⟨schema, registry, document.fragments⟩ root operation.selections calls).1 =
        .ok mock :=
  Walk.perform_ok (hd.soundIn hs hr) calls hd.not_cyclic

end Valid

/-! ## 4. Generations -/

/-- A schema that passes its check is loaded without the scalars that it does not use. -/
theorem SchemaSource.load_of_violations {schema : TypeSystem} (h : schema.violations = []) :
    (SchemaSource.built schema).load .all = .ok schema.withoutUnusedScalars := by
  have hchecked : schema.checked = .ok schema.withoutUnusedScalars := by
    rw [TypeSystem.checked, h]
  show Except.mapError Failure.invalidSchema schema.checked = _
  rw [hchecked]
  rfl

/-- Without spreads no fragment is reached. -/
theorem reachedBy_nil {operation : Operation} (h : Selection.spreadsIn operation.selections = []) :
    reachedBy [] operation = [] := by
  rw [reachedBy, reachableFragments, h, reach]
  rfl

theorem checkDocument_of_violations {schema : TypeSystem} {document : Document} (rules : Rules)
    (h : document.violations schema = []) : checkDocument rules schema document = .ok () := by
  unfold checkDocument
  rw [h]
  split <;> rfl

/-- The generation of an operation that is found, with a schema and a document that pass their
checks, is the walk of the operation from its root type. -/
theorem generate_eq_walk {m : Type → Type} [Monad m] [LawfulMonad m] {document : Document}
    {operation : Operation} {source : SchemaSource} {options : Options} {schema : TypeSystem}
    {root : Name} (calls : Calls)
    (ho : findOperation document options.operation = .ok operation)
    (hl : source.load options.rules = .ok schema)
    (hc : checkDocument options.rules schema document = .ok ())
    (hr : schema.root? operation.kind = some root) :
    generate document (pure (.ok source) : m (Except ProjectError SchemaSource)) options calls =
      pure (walkOperation document operation options.registry schema root calls) := by
  have hp : prepare document operation source options.rules = .ok (schema, root) := by
    have hroot : schema.root operation.kind = .ok root := by rw [TypeSystem.root, hr]
    simp only [prepare, hl, hc, hroot, bind, Except.bind]
    rfl
  simp [generate, ho, mockOperation, hp]

/-- **Valid input cannot go wrong.** From a schema that is well formed and a document that is valid
against it, both of which have passed the checks that were asked for, there is a mock, and it is an
object. -/
theorem generate_of_valid {m : Type → Type} [Monad m] [LawfulMonad m] {document : Document}
    {operation : Operation} {source : SchemaSource} {options : Options} {schema : TypeSystem}
    (calls : Calls)
    (ho : findOperation document options.operation = .ok operation)
    (hl : source.load options.rules = .ok schema)
    (hc : checkDocument options.rules schema document = .ok ())
    (hs : schema.WellFormed) (hd : document.ValidFor schema operation) :
    ∃ mock after,
      generate document (pure (.ok source) : m (Except ProjectError SchemaSource)) options calls =
        pure (.ok (.object mock), after) := by
  obtain ⟨root, hr, -⟩ := hd.root
  obtain ⟨mock, hok⟩ := hd.perform_ok hs hr options.registry calls
  refine ⟨mock, (perform ⟨schema, options.registry, document.fragments⟩ root operation.selections
    calls).2, ?_⟩
  rw [generate_eq_walk calls ho hl hc hr, walkOperation]
  simp only [hok]
  rfl

namespace Walk.Sample

/-- The mock of `everyone`, which spreads two fragments. -/
def roster : Operation := ⟨.query, none, [], [], everyone⟩

def rosterDocument : Document := [.operation roster, .fragment member, .fragment teamOf]

theorem staff_violations : staff.violations = [] := List.isEmpty_iff.mp (by decide +kernel)

theorem staff_load : (SchemaSource.built staff).load .all = .ok staff.withoutUnusedScalars :=
  SchemaSource.load_of_violations staff_violations

theorem staff_wellFormed : staff.withoutUnusedScalars.WellFormed :=
  ⟨by decide, by decide, by decide⟩

theorem roster_acyclic (name : Name) : ¬ Relation.TransGen
    (fun name inner => inner ∈ fragmentSpreads rosterDocument.fragments name) name name := by
  have hspreads : ∀ name inner, inner ∈ fragmentSpreads rosterDocument.fragments name →
      name = "member" ∧ inner = "teamOf" := by
    intro name inner h
    by_cases hm : name = "member"
    · subst hm
      exact ⟨rfl, List.mem_singleton.mp h⟩
    by_cases ht : name = "teamOf"
    · subst ht
      cases h
    simp [fragmentSpreads, fragmentNamed?, rosterDocument, Document.fragments, member, teamOf,
      Ne.symm hm, Ne.symm ht] at h
  intro hc
  obtain ⟨inner, hfirst, hrest⟩ := Relation.TransGen.head'_iff.mp hc
  obtain ⟨rfl, rfl⟩ := hspreads _ _ hfirst
  rcases Relation.ReflTransGen.cases_head hrest with h | ⟨other, hnext, -⟩
  · exact absurd h (by decide)
  · exact absurd (hspreads _ _ hnext).1 (by decide)

theorem roster_validFor : rosterDocument.ValidFor staff.withoutUnusedScalars roster where
  root := by
    refine ⟨"Query", rfl, ?_⟩
    simp only [roster, everyone, field, spread, FitIn, Fits, and_true]
    exact ⟨⟨_, rfl⟩, ⟨_, rfl⟩⟩
  fragments := by
    intro fragment hm
    rcases List.mem_cons.mp hm with rfl | hm
    · simp only [member, field, spread, FitIn, Fits, and_true]
      exact ⟨by decide, _, rfl⟩
    · rw [List.mem_singleton.mp hm]
      simp only [teamOf, field, FitIn, Fits, and_true]
      exact ⟨by decide, _, rfl, _, rfl⟩
  spreads := by decide
  unique := by decide
  acyclic := roster_acyclic

theorem roster_violations : rosterDocument.violations staff.withoutUnusedScalars = [] := by
  have hreached : reachedBy [member, teamOf] roster = [member, teamOf] := by
    have hnames : (([member, teamOf].map (·.name)).eraseDups) = ["member", "teamOf"] := rfl
    have hmember : fragmentSpreads [member, teamOf] "member" = ["teamOf"] := rfl
    have hteam : fragmentSpreads [member, teamOf] "teamOf" = [] := rfl
    have hstart : Selection.spreadsIn roster.selections = ["member", "teamOf", "member"] := rfl
    have hreach : reachableFragments [member, teamOf] roster.selections = ["member", "teamOf"] := by
      rw [reachableFragments, hnames, hstart]
      simp [reach, hmember, hteam]
    rw [reachedBy, hreach]
    rfl
  have hoperations : rosterDocument.resolvedOperations staff.withoutUnusedScalars =
      [(roster, "Query")] := rfl
  have hfragments : (Document.fragments rosterDocument).map
      (·.resolved staff.withoutUnusedScalars) = [member, teamOf] := rfl
  rw [Document.violations, hoperations, hfragments, resolvedViolations]
  simp only [List.flatMap_cons, List.flatMap_nil, operationViolations, hreached]
  exact List.isEmpty_iff.mp (by decide +kernel)

theorem roster_check : checkDocument .all staff.withoutUnusedScalars rosterDocument = .ok () :=
  checkDocument_of_violations .all roster_violations

end Walk.Sample

/-- With both checks, on a document in which a fragment spreads another one. -/
theorem generate_of_valid_roster :
    ∃ mock after,
      generate (m := Id) Walk.Sample.rosterDocument (pure (.ok (.built Walk.Sample.staff)))
        .standard [] = pure (.ok (.object mock), after) :=
  generate_of_valid [] (by rfl) Walk.Sample.staff_load Walk.Sample.roster_check
    Walk.Sample.staff_wellFormed Walk.Sample.roster_validFor

end MockGraph
