import MockGraph.Project.Discovery
import MockGraph.Proofs.Validation.UnusedScalars

/-!
# `Proofs/TypeSystem/Standard`: what every schema has that is built

A schema that is built from definitions is `Standard`: no definition takes the name of a built-in
scalar, and the types of introspection, to which extensions can only add, refer to strings. That holds
wherever the definitions come from (`SchemaSource.Standard.schema`, `discoverSchema_standard`).
-/

set_option autoImplicit false

namespace MockGraph

open Syntax

/-! ## 1. Extensions -/

namespace Syntax

theorem TypeBody.kind_extend (body extension : TypeBody) :
    (body.extend extension).kind = body.kind := by
  cases body <;> cases extension <;> rfl

namespace TypeDefinition

theorem fields_extend (type extension : TypeDefinition) :
    type.fields ⊆ (type.extend extension).fields := by
  intro field hf
  unfold fields at hf
  obtain ⟨description, name, directives, body⟩ := type
  obtain ⟨description', name', directives', body'⟩ := extension
  cases body <;> cases body' <;>
    simp_all [extend, TypeBody.extend, fields]

/-- An extended type is still the type that it was, and has all the fields that it had. -/
theorem extendAll_spec (type : TypeDefinition) (extensions : List TypeDefinition) :
    (type.extendAll extensions).name = type.name ∧ (type.extendAll extensions).kind = type.kind ∧
      type.fields ⊆ (type.extendAll extensions).fields := by
  unfold extendAll
  generalize extensions.filter type.isExtendedBy = meant
  induction meant generalizing type with
  | nil => exact ⟨rfl, rfl, fun _ hf => hf⟩
  | cons extension rest ih =>
    obtain ⟨hname, hkind, hfields⟩ := ih (type.extend extension)
    exact ⟨hname, hkind.trans (TypeBody.kind_extend type.body extension.body),
      fun _ hf => hfields (type.fields_extend extension hf)⟩

end TypeDefinition

end Syntax

/-! ## 2. Definitions -/

namespace TypeSystem

/-- The built-in types of these names are scalars, and no definition has one of them. -/
theorem scalar_of_buildErrors {document : Document} (h : buildErrors document = [])
    {type : TypeDefinition} (ht : type ∈ BuiltIn.types ++ document.typeDefinitions)
    (hs : BuiltIn.isScalar type.name = true) : type.kind = .scalar := by
  rcases List.mem_append.mp ht with hbuiltIn | hdefined
  · have hall : ∀ type ∈ BuiltIn.types, BuiltIn.isScalar type.name = true → type.kind = .scalar := by
      decide
    exact hall type hbuiltIn hs
  · simp only [buildErrors, nameErrors, List.append_eq_nil_iff, List.map_eq_nil_iff,
      List.filter_eq_nil_iff, List.mem_map] at h
    have hnot := h.1.1.1.2.1.1 type.name ⟨type, hdefined, rfl⟩
    have hscalars : ∀ name ∈ BuiltIn.scalars, BuiltIn.isType name = true := by decide
    exact absurd (hscalars type.name (List.contains_iff_mem.mp hs)) hnot

/-- Something refers to strings: the types of introspection do. -/
theorem text_mem_references (document : Document) : "String" ∈ (assemble document).references := by
  obtain ⟨type, ht, field, hf, htext⟩ :
      ∃ type ∈ BuiltIn.types, ∃ field ∈ type.fields, field.type.innerName = "String" := by decide
  have hbuilt : type.extendAll document.typeExtensions ∈ (assemble document).types :=
    List.mem_map.mpr ⟨type, List.mem_append_left _ ht, rfl⟩
  -- A document may extend the types of introspection, but extensions take nothing away.
  have hfield : field ∈ (type.extendAll document.typeExtensions).fields :=
    (type.extendAll_spec document.typeExtensions).2.2 hf
  refine List.mem_append_left _ (List.mem_flatMap.mpr ⟨_, hbuilt, List.mem_append_left _ ?_⟩)
  exact List.mem_flatMap.mpr ⟨field, hfield, htext ▸ List.mem_cons_self⟩

theorem standard_of_build {document : Document} {schema : TypeSystem}
    (h : build document = .ok schema) : schema.Standard := by
  unfold build at h
  split at h
  · next herrors =>
    cases h
    refine ⟨fun type ht hs => ?_, text_mem_references document⟩
    obtain ⟨defined, hd, rfl⟩ := List.mem_map.mp ht
    obtain ⟨hname, hkind, -⟩ := defined.extendAll_spec document.typeExtensions
    rw [hkind]
    exact scalar_of_buildErrors herrors hd (hname ▸ hs)
  · cases h

theorem standard_of_parseAll {texts : List String} {schema : TypeSystem}
    (h : parseAll texts = .ok schema) : schema.Standard := by
  unfold parseAll at h
  split at h
  · cases h
  · next documents hd =>
    cases hb : build documents.flatten with
    | error errors =>
      rw [hb] at h
      cases h
    | ok built =>
      rw [hb] at h
      cases h
      exact standard_of_build hb

end TypeSystem

/-! ## 3. Sources -/

/-- A schema that is handed over built is standard. -/
def SchemaSource.Standard (source : SchemaSource) : Prop :=
  ∀ schema, source = .built schema → schema.Standard

/-- Then the schema of every source is. -/
theorem SchemaSource.Standard.schema {source : SchemaSource} (h : source.Standard)
    {schema : TypeSystem} (hs : source.schema = .ok schema) : schema.Standard := by
  cases source with
  | built built =>
    cases hs
    exact h _ rfl
  | definitions text => exact TypeSystem.standard_of_parseAll hs
  | introspection payload =>
    unfold SchemaSource.schema TypeSystem.ofPayload at hs
    simp only at hs
    split at hs
    · cases hs
    · exact TypeSystem.standard_of_parseAll hs

section Discovery

variable {files : FileAccess Id}

theorem ok_of_bind {α β : Type} {load : Loading Id α} {next : α → Loading Id β} {b : β}
    (h : (load >>= next).run = .ok b) : ∃ a, load.run = .ok a ∧ (next a).run = .ok b := by
  have hb : (load >>= next).run = ExceptT.bindCont next load.run := rfl
  rw [hb] at h
  cases hl : load.run with
  | error error =>
    rw [hl] at h
    cases h
  | ok a =>
    rw [hl] at h
    exact ⟨a, rfl, h⟩

/-- So is the schema of several files. -/
theorem loadSchema_standard {base : FilePath} {pointers : List String} {schema : TypeSystem}
    (h : (loadSchema files base pointers).run = .ok schema) : schema.Standard := by
  unfold loadSchema at h
  split at h
  · obtain ⟨_, hthrow, -⟩ := ok_of_bind h
    cases hthrow
  · obtain ⟨texts, -, h⟩ := ok_of_bind h
    split at h
    · next found hfound =>
      cases h
      exact TypeSystem.standard_of_parseAll hfound
    · cases h

/-- So is the schema of a project, whatever its files are. -/
theorem discoverSchema_standard {start : FilePath} {schema : TypeSystem}
    (h : (discoverSchema files start).run = .ok schema) : schema.Standard := by
  unfold discoverSchema at h
  obtain ⟨path, -, h⟩ := ok_of_bind h
  obtain ⟨configuration, -, h⟩ := ok_of_bind h
  split at h
  · cases h
  · exact loadSchema_standard h

end Discovery

end MockGraph
