import MockGraph.Proofs.Walk.Calls
import MockGraph.Proofs.Walk.Shape

/-!
# `Proofs/Walk/Conformance`: mocks of the declared types

Every value in a mock is there because of one field, its `producer?`: of the fields that share a
response key and have a value to contribute, the last. `Conforms` says that the value is one of the
type that the schema declares for this field:

    one-element lists, as many as the type has, around
      a number, truth value or text   for a scalar, by its name
      the name of a member            for an enum
      an object of the fields below   for an object, interface or union

Main statement, `generate_conforms`: if a request succeeds without resolvers, whatever its document
is like, its mock conforms. It has a key exactly if a field under the key has a value, and the only
fields without one are those of enums without members. There is no null in it anywhere.
-/

set_option autoImplicit false

namespace MockGraph

open Syntax

/-! ## 1. Values of declared types -/

/-- What a type makes of a value of the named type inside it: one item for every list. -/
def Syntax.TypeRef.enclose (value : Json) : TypeRef → Json
  | .named _ | .nonNullNamed _ => value
  | .list item | .nonNullList item => .array [item.enclose value]

theorem enclose_eq_wrap (value : Json) (type : TypeRef) :
    type.enclose value = value.wrap (FieldType.ofTypeRef type).unwrap.2 := by
  have hname : ∀ name, (FieldType.ofName name).unwrap.2 = 0 := by
    intro name
    unfold FieldType.ofName
    split <;> rfl
  induction type with
  | named name => simp [TypeRef.enclose, FieldType.ofTypeRef, hname, Json.wrap]
  | nonNullNamed name =>
    simp [TypeRef.enclose, FieldType.ofTypeRef, FieldType.unwrap, hname, Json.wrap]
  | list item ih | nonNullList item ih =>
    simp [TypeRef.enclose, FieldType.ofTypeRef, FieldType.unwrap, ih, Json.wrap]

/-- The values of a scalar type. Those that are not spelled otherwise are texts. -/
def IsScalarValue (type : Name) (value : Json) : Prop :=
  match type with
  | "Int" => ∃ n fits, value = .number (.integer n fits)
  | "Float" => ∃ number, value = .number number
  | "Boolean" => ∃ flag, value = .bool flag
  | _ => ∃ text, value = .string text

/-- A value stands somewhere in another one. -/
inductive Json.Within (part : Json) : Json → Prop where
  | self : Within part part
  | item {items : List Json} {item : Json} (hm : item ∈ items) (h : Within part item) :
    Within part (.array items)
  | member {members : Json.Object} {key : String} {value : Json} (hm : (key, value) ∈ members)
    (h : Within part value) : Within part (.object members)

theorem Json.Object.get?_of_mem {o : Object} (h : o.keys.Nodup) {key : String} {value : Json}
    (hm : (key, value) ∈ o) : o.get? key = some value := by
  induction o with
  | nil => cases hm
  | cons member rest ih =>
    obtain ⟨hnot, hrest⟩ := List.nodup_cons.mp h
    rcases List.mem_cons.mp hm with rfl | hm
    · simp [get?]
    · have hne : member.1 ≠ key := by
        rintro rfl
        exact hnot (List.mem_map.mpr ⟨_, hm, rfl⟩)
      rw [← ih hrest hm]
      simp [get?, hne]

namespace Walk

/-! ## 2. Values of fields -/

/-- The field that the value under a key is from: the last one that has a value. -/
def producer? (schema : TypeSystem) (fields : List Occurrence) (key : String) : Option Occurrence :=
  (under key (producing schema fields)).getLast?

theorem producer?_eq_none_iff {schema : TypeSystem} {fields : List Occurrence} {key : String} :
    producer? schema fields key = none ↔
      ∀ field ∈ fields, field.key = key → isMemberless schema field = true := by
  simp only [producer?, List.getLast?_eq_none_iff, under, producing, List.filter_eq_nil_iff,
    List.mem_filter]
  constructor
  · intro h field hm hk
    by_contra hn
    exact h field ⟨hm, by simpa using hn⟩ (by simpa using hk)
  · rintro h field ⟨hm, hn⟩ hk
    simp [h field hm (by simpa using hk)] at hn

/-- A key is missing from an object only if no field under it has a value. -/
def MissesMemberless (schema : TypeSystem) (fields : List Occurrence) (mock : Json.Object) : Prop :=
  ∀ key, key ∉ mock.keys ↔ ∀ field ∈ fields, field.key = key → isMemberless schema field = true

/-- A value is one of the type that a schema declares for a field. -/
inductive Conforms (context : Context) : Occurrence → Json → Prop where
  | typename {field : Occurrence} (hn : field.name = "__typename") :
    Conforms context field (.string field.outer)
  | scalar {field : Occurrence} {definition : FieldDefinition} {type : TypeDefinition} {value : Json}
    (hn : field.name ≠ "__typename")
    (hf : context.schema.field field.outer field.name = .ok definition)
    (ht : context.schema.type? definition.type.innerName = some type) (hk : type.kind = .scalar)
    (hv : IsScalarValue type.name value) : Conforms context field (definition.type.enclose value)
  | enum {field : Occurrence} {definition : FieldDefinition} {type : TypeDefinition}
    {member : EnumValue} (hn : field.name ≠ "__typename")
    (hf : context.schema.field field.outer field.name = .ok definition)
    (ht : context.schema.type? definition.type.innerName = some type) (hk : type.kind = .enum)
    (hm : member ∈ type.enumValues) :
    Conforms context field (definition.type.enclose (.string member.name))
  | composite {field : Occurrence} {definition : FieldDefinition} {type : TypeDefinition}
    {mock : Json.Object} (hn : field.name ≠ "__typename")
    (hf : context.schema.field field.outer field.name = .ok definition)
    (ht : context.schema.type? definition.type.innerName = some type)
    (hk : type.kind.isComposite = true)
    (hm : MissesMemberless context.schema (selectedFields context type.name field.nested) mock)
    (hv : ∀ key value, (key, value) ∈ mock → ∀ inner,
      producer? context.schema (selectedFields context type.name field.nested) key = some inner →
        Conforms context inner value) :
    Conforms context field (definition.type.enclose (.object mock))

/-- An object consists of values of fields. -/
structure Consists (context : Context) (fields : List Occurrence) (mock : Json.Object) : Prop where
  missing : MissesMemberless context.schema fields mock
  values : ∀ key value, (key, value) ∈ mock →
    ∃ field, producer? context.schema fields key = some field ∧ Conforms context field value

section Values

variable {context : Context} {field : Occurrence} {value : Json}

theorem isScalarValue_scalarSample (type field : Name) :
    IsScalarValue type (scalarSample type field) := by
  unfold scalarSample IsScalarValue
  split
  · exact ⟨42, by decide, rfl⟩
  · exact ⟨_, rfl⟩
  · exact ⟨false, rfl⟩
  · split <;> simp_all

/-- There is no null in a value that conforms. -/
theorem Conforms.not_within_null (h : Conforms context field value) :
    ¬ Json.Within .null value := by
  have hlists : ∀ (type : TypeRef) (inner : Json), ¬ Json.Within .null inner →
      ¬ Json.Within .null (type.enclose inner) := by
    intro type inner hinner
    induction type with
    | named | nonNullNamed => exact hinner
    | list item ih | nonNullList item ih =>
      rintro (_ | ⟨hm, hw⟩)
      rw [List.mem_singleton.mp hm] at hw
      exact ih hw
  have htext : ∀ text, ¬ Json.Within .null (.string text) := by
    rintro text ⟨⟩
  induction h with
  | typename hn => exact htext _
  | scalar hn hf ht hk hv =>
    apply hlists
    unfold IsScalarValue at hv
    split at hv
    · obtain ⟨n, fits, rfl⟩ := hv
      rintro ⟨⟩
    · obtain ⟨number, rfl⟩ := hv
      rintro ⟨⟩
    · obtain ⟨flag, rfl⟩ := hv
      rintro ⟨⟩
    · obtain ⟨text, rfl⟩ := hv
      exact htext text
  | enum hn hf ht hk hm => exact hlists _ _ (htext _)
  | @composite field definition type mock hn hf ht hk hm hv ih =>
    apply hlists
    rintro (_ | _ | ⟨hmem, hw⟩)
    rename_i key inner
    cases hp : producer? context.schema (selectedFields context type.name field.nested) key with
    | none =>
      have hmissing := (hm key).mpr (producer?_eq_none_iff.mp hp)
      exact hmissing (List.mem_map_of_mem hmem)
    | some producer => exact ih key inner hmem producer hp hw

/-- The object of selections consists of the values of their fields, if what a field contributes
conforms. -/
theorem consists_of_lays {fields : List Occurrence} {mock : Json.Object} (hn : mock.keys.Nodup)
    (hl : Lays context (producing context.schema fields) [] mock)
    (hg : ∀ key value, (key, value) ∈ mock → ∀ field, Gives context field value →
      Conforms context field value) : Consists context fields mock := by
  have hproducer : ∀ key, (producer? context.schema fields key = none ∧ mock.get? key = none) ∨
      ∃ field value, producer? context.schema fields key = some field ∧
        mock.get? key = some value ∧ Gives context field value := by
    intro key
    rcases hl.cases key with ⟨hp, hv⟩ | ⟨field, value, hp, hv, hgives⟩
    · exact .inl ⟨hp, hv⟩
    · exact .inr ⟨field, value, hp, hv, hgives⟩
  refine ⟨fun key => ?_, fun key value hm => ?_⟩
  · rw [← Json.Object.get?_eq_none_iff, ← producer?_eq_none_iff]
    rcases hproducer key with ⟨hp, hv⟩ | ⟨field, value, hp, hv, -⟩
    · simp [hp, hv]
    · simp [hp, hv]
  · have hget := Json.Object.get?_of_mem hn hm
    rcases hproducer key with ⟨-, hv⟩ | ⟨field, found, hp, hv, hgives⟩
    · cases hget.symm.trans hv
    · cases hget.symm.trans hv
      exact ⟨field, hp, hg key _ hm field hgives⟩

theorem sizeOf_le_wrap (value : Json) (depth : Nat) : sizeOf value ≤ sizeOf (value.wrap depth) := by
  induction depth with
  | zero => exact Nat.le_refl _
  | succ depth ih =>
    have hitem : sizeOf (value.wrap (depth + 1)) = 1 + sizeOf [value.wrap depth] := rfl
    rw [hitem, List.cons.sizeOf_spec]
    omega

/-- What a field contributes without resolvers is a value of its type. -/
theorem Gives.conforms (hu : context.Unbound) (h : Gives context field value) :
    Conforms context field value := by
  -- On the size of the value: fragments may nest selections deeper than their text is.
  induction hs : sizeOf value using Nat.strongRecOn generalizing field value with
  | ind size ih =>
    subst hs
    rcases h.cases hu with ⟨hn, rfl⟩ | ⟨hn, found, ht, hi, hvalue⟩
    · exact .typename hn
    obtain ⟨definition, type, hf, htype, rfl⟩ := definition_of_target ht
    have hname : type.name = definition.type.innerName := by simpa using List.find?_some htype
    rcases hvalue with ⟨hk, sample, hv, rfl⟩ | ⟨hk, mock, hnested, rfl⟩
    · rw [← enclose_eq_wrap]
      cases hkind : type.kind with
      | scalar =>
        rw [hkind] at hv
        cases hv
        refine .scalar hn hf htype hkind ?_
        rw [hname]
        exact isScalarValue_scalarSample _ _
      | enum =>
        rw [hkind] at hv
        simp only [leafSample, TypeSystem.firstEnumValue?, htype, Option.bind_some] at hv
        obtain ⟨name, hfirst, rfl⟩ := Option.map_eq_some_iff.mp hv
        obtain ⟨member, hm, rfl⟩ := Option.map_eq_some_iff.mp hfirst
        exact .enum hn hf htype hkind (List.mem_of_head? hm)
      | object | interface | union | inputObject => simp_all [TypeKind.isComposite]
    · rw [← hname] at hnested
      obtain ⟨hnodup, hl⟩ := lays_producing hu hnested
      have hinner : Consists context (selectedFields context type.name field.nested) mock := by
        refine consists_of_lays hnodup hl fun key value hm inner hg => ih _ ?_ hg rfl
        have hmember : sizeOf (key, value) < sizeOf mock := List.sizeOf_lt_of_mem hm
        have hobject : sizeOf (Json.object mock) = 1 + sizeOf mock := Json.object.sizeOf_spec mock
        have hpair : sizeOf (key, value) = 1 + sizeOf key + sizeOf value := rfl
        refine Nat.lt_of_lt_of_le ?_ (sizeOf_le_wrap (.object mock) _)
        omega
      rw [← enclose_eq_wrap]
      refine .composite hn hf htype hk hinner.missing fun key value hm inner hp => ?_
      obtain ⟨producer, hp', hc⟩ := hinner.values key value hm
      cases hp.symm.trans hp'
      exact hc

/-- The object of selections consists of values of their fields. -/
theorem consists_of_expandAll (hu : context.Unbound) {cursor : Name} {set : List Selection}
    {mock : Json.Object}
    (h : expandAll context (expandFragment context []) cursor [] set = .ok mock) :
    Consists context (selectedFields context cursor set) mock := by
  obtain ⟨hn, hl⟩ := lays_producing hu h
  exact consists_of_lays hn hl fun _ _ _ _ hg => hg.conforms hu

theorem Consists.not_within_null {fields : List Occurrence} {mock : Json.Object}
    (h : Consists context fields mock) : ¬ Json.Within .null (.object mock) := by
  rintro (_ | _ | ⟨hm, hw⟩)
  obtain ⟨field, -, hc⟩ := h.values _ _ hm
  exact hc.not_within_null hw

end Values

end Walk

/-! ## 3. Generations -/

/-- **Without resolvers a mock is type correct.** Every entry of every object in it is a value of
the type of the field that produced it, nothing but enums without members is missing, and nothing is
null. -/
theorem generate_conforms {request : MockRequest} {calls : Calls} {json : Json}
    (h : (request.generate .empty calls).1 = .ok json) :
    ∃ operation schema root mock, request.start = .ok (operation, schema, root) ∧
      json = .object mock ∧
      Walk.Consists ⟨schema, .empty, request.document.fragments⟩
        (Walk.selectedFields ⟨schema, .empty, request.document.fragments⟩ root
          operation.selections) mock ∧
      ¬ Json.Within .null json := by
  rw [MockRequest.generate_eq] at h
  cases hs : request.start with
  | error failure =>
    rw [hs] at h
    cases h
  | ok start =>
    obtain ⟨operation, schema, root⟩ := start
    rw [hs] at h
    let context : Walk.Context := ⟨schema, .empty, request.document.fragments⟩
    obtain ⟨after, hw, -⟩ := Walk.runs_perform context root operation.selections calls
    have hall := hw.eq_expandAll Registry.isConstant_empty
    have hu : context.Unbound := fun _ => rfl
    cases hp : (Walk.perform context root operation.selections calls).1 with
    | error error =>
      simp only [walkOperation, context] at h hp
      rw [hp] at h
      cases h
    | ok mock =>
      rw [hp] at hall
      have hc := Walk.consists_of_expandAll hu hall
      simp only [walkOperation, context] at h hp
      rw [hp] at h
      cases h
      exact ⟨operation, schema, root, mock, rfl, rfl, hc, hc.not_within_null⟩

namespace Walk.Sample

/-- Pictures with fields of all kinds. Nobody can be in a mood. -/
def gallery : TypeSystem where
  types := [
    BuiltIn.object "Query" [
      BuiltIn.plain "hall" (.nonNullList (.list (.nonNullNamed "Picture")))],
    BuiltIn.define "Picture" (.interface [] [
      BuiltIn.plain "width" (.named "Int"), BuiltIn.plain "ratio" (.nonNullNamed "Float"),
      BuiltIn.plain "sold" (.list (.nonNullNamed "Boolean")),
      BuiltIn.plain "style" (.nonNullNamed "Style"), BuiltIn.plain "mood" (.list (.named "Mood")),
      BuiltIn.plain "next" (.named "Picture")]),
    BuiltIn.enum "Style" ["OIL", "INK"], BuiltIn.enum "Mood" []] ++ BuiltIn.types
  directives := BuiltIn.directives
  roots := [(.query, "Query")]
  applied := []

def size : Fragment := ⟨"size", "Picture", [], [field "width" [], field "ratio" []]⟩

/-- A request that is not checked: a leaf has selections, and fields of several types share a key. -/
def galleryRequest : MockRequest where
  document := [
    .operation ⟨.query, none, [], [], [
      field "hall" [
        spread "size", field "sold" [field "no" []], .field (some "ratio") "mood" [] [] [],
        .field (some "width") "style" [] [] [], field "mood" [],
        field "next" [spread "size", .inline none [] [.field (some "of") "__typename" [] [] []]]]]⟩,
    .fragment size]
  acquired := .ok (.built gallery)
  rules := []
  operation := none

/-- The second field under `ratio` has no value, so the first one produces what is there. -/
def galleryMock : Json :=
  let next : Json := .object [("width", scalarSample "Int" "width"),
    ("ratio", .number (.double floatSample)), ("of", .string "Picture")]
  .object [("hall", .array [.array [.object [("width", .string "OIL"),
    ("ratio", .number (.double floatSample)), ("sold", .array [.bool false]), ("next", next)]]])]

theorem generate_conforms_gallery :
    (galleryRequest.generate .empty []).1 = .ok galleryMock ∧
    ∃ operation schema root mock, galleryRequest.start = .ok (operation, schema, root) ∧
      galleryMock = .object mock ∧
      Consists ⟨schema, .empty, galleryRequest.document.fragments⟩
        (selectedFields ⟨schema, .empty, galleryRequest.document.fragments⟩ root
          operation.selections) mock ∧
      ¬ Json.Within .null galleryMock := by
  have h : (galleryRequest.generate .empty []).1 = .ok galleryMock := rfl
  exact ⟨h, generate_conforms h⟩

end Walk.Sample

end MockGraph
