import MockGraph.SchemaSource
import MockGraph.Validation.Selection

/-!
# `Proofs/Validation/UnusedScalars`: what a schema loses by being checked

A schema that passes its rules goes on without the built-in scalars that nothing in it refers to. So
two schemas have to be told apart, the one that was built and the one that was checked, and a name
may mean something in the one only. `drops` tells which names these are (`type?_checked`).

Everything that a schema says about its own fields, arguments and directives is about names that it
refers to. So values, arguments and directives are judged alike by both (`valueViolations_checked`,
`directiveViolations_checked`), and only what a document names by itself, a type condition or the
type of a variable, can make a difference.
-/

set_option autoImplicit false

namespace MockGraph

open Syntax

/-! ## 1. Names that are dropped -/

namespace TypeSystem

/-- Whether a name is that of a built-in scalar that nothing in a schema refers to. -/
def drops (schema : TypeSystem) (name : Name) : Bool :=
  BuiltIn.isScalar name && !schema.references.contains name

/-- A name means the same before and after a schema is checked. -/
abbrev Keeps (schema : TypeSystem) (name : Name) : Prop :=
  schema.withoutUnusedScalars.type? name = schema.type? name

/-- What every schema has that was built from definitions: the names of the built-in scalars are those
of scalars, and something refers to strings, as the introspection types do. -/
structure Standard (schema : TypeSystem) : Prop where
  scalars : ∀ type ∈ schema.types, BuiltIn.isScalar type.name = true → type.kind = .scalar
  text : "String" ∈ schema.references

/-- Every root type of a schema is an object type. -/
def HasObjectRoots (schema : TypeSystem) : Prop :=
  ∀ root ∈ schema.roots, schema.kind? root.2 = some .object

variable {schema : TypeSystem} {name : Name}

theorem type?_checked (schema : TypeSystem) (name : Name) :
    schema.withoutUnusedScalars.type? name = if schema.drops name then none else schema.type? name := by
  unfold type? withoutUnusedScalars
  rw [List.find?_filter]
  split
  · next hd =>
    refine List.find?_eq_none.mpr fun type _ h => ?_
    simp only [drops, Bool.and_eq_true, Bool.not_eq_true'] at hd
    simp only [Bool.or_eq_true, Bool.not_eq_true', decide_eq_true_eq] at h
    obtain ⟨hkept, rfl⟩ := h
    rcases hkept with hkept | hkept
    · rw [hd.1] at hkept
      cases hkept
    · rw [hd.2] at hkept
      cases hkept
  · next hd =>
    congr 1
    funext type
    by_cases hn : type.name = name
    · subst hn
      simp only [drops, Bool.and_eq_true, Bool.not_eq_true', not_and, Bool.not_eq_false] at hd
      cases hs : BuiltIn.isScalar type.name with
      | false => simp
      | true => simpa using hd hs
    · simp [hn]

theorem keeps_of_not_drops (h : schema.drops name = false) : schema.Keeps name := by
  rw [Keeps, type?_checked, h]
  rfl

theorem keeps_of_mem (h : name ∈ schema.references) : schema.Keeps name := by
  refine keeps_of_not_drops ?_
  have hc : schema.references.contains name = true := List.contains_iff_mem.mpr h
  rw [drops, hc]
  simp

theorem keeps_of_not_isScalar (h : BuiltIn.isScalar name = false) : schema.Keeps name :=
  keeps_of_not_drops (by rw [drops, h]; rfl)

/-- What is still there after the check was the same before it. -/
theorem keeps_of_type? {type : TypeDefinition}
    (h : schema.withoutUnusedScalars.type? name = some type) : schema.Keeps name := by
  refine keeps_of_not_drops ?_
  rw [type?_checked] at h
  split at h
  · cases h
  · next hd => simpa using hd

/-- A name that loses its meaning was that of a scalar. -/
theorem Standard.scalar_of_not_keeps (hs : schema.Standard) (h : ¬ schema.Keeps name) :
    schema.withoutUnusedScalars.type? name = none ∧
      ∃ type, schema.type? name = some type ∧ type.name = name ∧ type.kind = .scalar := by
  have hd : schema.drops name = true :=
    Bool.of_not_eq_false fun hd => h (keeps_of_not_drops hd)
  have hnone : schema.withoutUnusedScalars.type? name = none := by rw [type?_checked, hd]; rfl
  refine ⟨hnone, ?_⟩
  cases ht : schema.type? name with
  | none => exact absurd (hnone.trans ht.symm) h
  | some type =>
    have hname : type.name = name := by simpa using List.find?_some ht
    have hscalar : BuiltIn.isScalar type.name = true := by
      rw [drops, Bool.and_eq_true] at hd
      rw [hname]
      exact hd.1
    exact ⟨type, rfl, hname, hs.scalars type (List.mem_of_find?_eq_some ht) hscalar⟩

/-! ## 2. Names that a schema refers to -/

section References

variable {type : TypeDefinition}

theorem keeps_field {field : FieldDefinition} (ht : type ∈ schema.types) (hf : field ∈ type.fields) :
    schema.Keeps field.type.innerName ∧
      ∀ input ∈ field.arguments, schema.Keeps input.type.innerName := by
  have hfield : ∀ name ∈ field.type.innerName :: inputReferences field.arguments,
      name ∈ schema.references := fun name hn =>
    List.mem_append_left _ (List.mem_flatMap.mpr
      ⟨type, ht, List.mem_append_left _ (List.mem_flatMap.mpr ⟨field, hf, hn⟩)⟩)
  refine ⟨keeps_of_mem (hfield _ List.mem_cons_self), fun input hi => ?_⟩
  exact keeps_of_mem (hfield _ (List.mem_cons_of_mem _ (List.mem_map.mpr ⟨input, hi, rfl⟩)))

theorem keeps_inputField {input : InputValue} (ht : type ∈ schema.types)
    (hi : input ∈ type.inputFields) : schema.Keeps input.type.innerName :=
  keeps_of_mem (List.mem_append_left _ (List.mem_flatMap.mpr
    ⟨type, ht, List.mem_append_right _ (List.mem_map.mpr ⟨input, hi, rfl⟩)⟩))

theorem keeps_directiveArgument {definition : DirectiveDefinition} {input : InputValue}
    (hd : definition ∈ schema.directives) (hi : input ∈ definition.arguments) :
    schema.Keeps input.type.innerName :=
  keeps_of_mem (List.mem_append_right _ (List.mem_flatMap.mpr
    ⟨definition, hd, List.mem_map.mpr ⟨input, hi, rfl⟩⟩))

end References

/-! ## 3. Fields -/

theorem kind?_checked (h : schema.Keeps name) :
    schema.withoutUnusedScalars.kind? name = schema.kind? name := by rw [kind?, kind?, h]

/-- The fields of a type whose name keeps its meaning are the same. -/
theorem field_checked (h : schema.Keeps name) (field : Name) :
    schema.withoutUnusedScalars.field name field = schema.field name field := by
  unfold TypeSystem.field
  rw [h]
  rfl

/-- A field of a standard schema, one of introspection included, has a type and arguments whose names
keep their meaning. -/
theorem Standard.keeps_field (hs : schema.Standard) {outer field : Name}
    {definition : FieldDefinition} (hf : schema.field outer field = .ok definition) :
    schema.Keeps definition.type.innerName ∧
      ∀ input ∈ definition.arguments, schema.Keeps input.type.innerName := by
  have htext : schema.Keeps "String" := keeps_of_mem hs.text
  unfold TypeSystem.field at hf
  split at hf
  · cases hf
  next type ht =>
  split at hf
  · cases hf
  next found hfound =>
  cases hf
  rcases Option.or_eq_some_iff.mp hfound with hdeclared | ⟨-, hmeta⟩
  · exact TypeSystem.keeps_field (List.mem_of_find?_eq_some ht) (List.mem_of_find?_eq_some hdeclared)
  · unfold metaField? at hmeta
    split at hmeta
    · cases hmeta
      exact ⟨htext, nofun⟩
    · split at hmeta
      · split at hmeta
        · cases hmeta
          exact ⟨keeps_of_not_isScalar (by decide), nofun⟩
        · cases hmeta
          refine ⟨keeps_of_not_isScalar (by decide), fun input hi => ?_⟩
          rw [List.mem_singleton.mp hi]
          exact htext
        · cases hmeta
      · cases hmeta

theorem HasObjectRoots.keeps (hs : schema.Standard) (hr : schema.HasObjectRoots)
    {kind : OperationKind} (h : schema.root? kind = some name) : schema.Keeps name := by
  refine Classical.byContradiction fun hnot => ?_
  obtain ⟨-, type, ht, -, hscalar⟩ := hs.scalar_of_not_keeps hnot
  obtain ⟨root, hfound, rfl⟩ := Option.map_eq_some_iff.mp h
  have hobject := hr root (List.mem_of_find?_eq_some hfound)
  rw [kind?, ht, Option.map_some, hscalar] at hobject
  cases hobject

/-- A name that loses its meaning has no fields, before or after. -/
theorem Standard.field_of_not_keeps (hs : schema.Standard) (hr : schema.HasObjectRoots)
    (h : ¬ schema.Keeps name) (field : Name) :
    schema.field name field = .error (.invalidField field name) ∧
      schema.withoutUnusedScalars.field name field = .error (.unknownType name) := by
  obtain ⟨hnone, type, ht, hname, hscalar⟩ := hs.scalar_of_not_keeps h
  -- The fields of introspection are on the query type, and a root type is no scalar.
  have hroot : schema.root? .query ≠ some type.name := fun hq => h (hr.keeps hs (hname ▸ hq))
  have hfields : type.fields = [] := by
    cases hb : type.body <;> simp_all [TypeDefinition.fields, TypeDefinition.kind, TypeBody.kind]
  have hcomposite : type.isComposite = false := by simp [TypeDefinition.isComposite, hscalar]
  have hfieldOn : schema.fieldOn? type field = none := by
    simp [fieldOn?, metaField?, hfields, hcomposite, hroot]
  refine ⟨?_, ?_⟩
  · simp only [TypeSystem.field, ht, hfieldOn]
  · simp only [TypeSystem.field, hnone]

theorem hasObjectRoots_of_violations (h : schema.violations = []) : schema.HasObjectRoots := by
  intro root hroot
  simp only [violations, schemaDefinitionViolations, List.append_eq_nil_iff,
    List.flatMap_eq_nil_iff] at h
  have hv := h.1.1.1.1.1.1.2 root hroot
  unfold rootViolations at hv
  split at hv
  · cases hv
  · next kind hk =>
    rw [hk]
    by_cases hobject : kind = .object
    · rw [hobject]
    · simp [findingIf, hobject] at hv

end TypeSystem

open TypeSystem

/-! ## 4. Values, arguments and directives -/

section Values

variable {schema : TypeSystem}

theorem innerName_item? (type : TypeRef) : (type.item?.getD type).innerName = type.innerName := by
  cases type <;> rfl

mutual

theorem valueViolations_checked (scope : List VariableDefinition) {type : TypeRef}
    (h : schema.Keeps type.innerName) : ∀ value,
    valueViolations schema.withoutUnusedScalars scope type value =
      valueViolations schema scope type value
  | .var name => by rw [valueViolations, valueViolations, h]
  | .null => by rw [valueViolations, valueViolations, h]
  | .list items => by
    rw [valueViolations, valueViolations, h]
    -- Items are judged by the type of the items, which has the same name inside.
    have hitem : schema.Keeps (type.item?.getD type).innerName := by rwa [innerName_item?]
    rw [itemViolations_checked scope hitem items]
  | .object fields => by
    rw [valueViolations, valueViolations, h]
    cases ht : schema.type? type.innerName with
    | none => rfl
    | some definition =>
      have hfields : ∀ input ∈ definition.inputFields, schema.Keeps input.type.innerName :=
        fun input hi => keeps_inputField (List.mem_of_find?_eq_some ht) hi
      simp only [fieldViolations_checked scope hfields [] fields]
  | .int _ | .float _ | .string _ | .boolean _ | .enum _ => by
    simp only [valueViolations, h]

theorem itemViolations_checked (scope : List VariableDefinition) {type : TypeRef}
    (h : schema.Keeps type.innerName) : ∀ items,
    itemViolations schema.withoutUnusedScalars scope type items =
      itemViolations schema scope type items
  | [] => rfl
  | item :: rest => by
    rw [itemViolations, itemViolations, valueViolations_checked scope h item,
      itemViolations_checked scope h rest]

theorem fieldViolations_checked (scope : List VariableDefinition) {definition : TypeDefinition}
    (h : ∀ input ∈ definition.inputFields, schema.Keeps input.type.innerName) (seen : List Name) :
    ∀ fields, fieldViolations schema.withoutUnusedScalars scope definition seen fields =
      fieldViolations schema scope definition seen fields
  | [] => rfl
  | (name, value) :: rest => by
    rw [fieldViolations, fieldViolations, fieldViolations_checked scope h (name :: seen) rest]
    cases hf : definition.inputFields.find? (·.name = name) with
    | none => rfl
    | some input =>
      have hinput := h input (List.mem_of_find?_eq_some hf)
      simp only [valueViolations_checked scope hinput value]

end

theorem argumentViolations_checked (scope : List VariableDefinition) (place : Name)
    {declared : List InputValue} (h : ∀ input ∈ declared, schema.Keeps input.type.innerName)
    (arguments : List Argument) :
    argumentViolations schema.withoutUnusedScalars scope place declared arguments =
      argumentViolations schema scope place declared arguments := by
  have hone : ∀ argument,
      argumentViolation schema.withoutUnusedScalars scope place declared argument =
        argumentViolation schema scope place declared argument := by
    intro argument
    unfold argumentViolation
    cases hf : declared.find? (·.name = argument.name) with
    | none => rfl
    | some input =>
      have hinput := h input (List.mem_of_find?_eq_some hf)
      simp only [valueViolations_checked scope hinput]
  unfold argumentViolations
  simp only [funext hone]

theorem directiveViolations_checked (schema : TypeSystem) (scope : List VariableDefinition)
    (location : DirectiveLocation) (directives : List Directive) :
    directiveViolations schema.withoutUnusedScalars scope location directives =
      directiveViolations schema scope location directives := by
  have hone : ∀ directive,
      directiveViolation schema.withoutUnusedScalars scope location directive =
        directiveViolation schema scope location directive := by
    intro directive
    have hsame : schema.withoutUnusedScalars.directive? directive.name =
      schema.directive? directive.name := rfl
    unfold directiveViolation
    rw [hsame]
    cases hd : schema.directive? directive.name with
    | none => rfl
    | some definition =>
      have harguments : ∀ input ∈ definition.arguments, schema.Keeps input.type.innerName :=
        fun input hi => keeps_directiveArgument (List.mem_of_find?_eq_some hd) hi
      simp only [argumentViolations_checked scope directive.name harguments]
  unfold directiveViolations
  rw [funext hone]
  rfl

end Values

end MockGraph
