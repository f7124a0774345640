import MockGraph.Proofs.Json.Merge
import MockGraph.Proofs.Walk.Expansion
import MockGraph.Proofs.Walk.Progress
import MockGraph.Validation.Merge
import Mathlib.Data.List.Induction

/-!
# `Proofs/Walk/Shape`: which mocks have the shape of their selections

The fields of a selection set stand at places, paths of response keys. Where several fields share a
key, all that is selected on any of them stands at the place below the key. `HasShape` says that an
object has an entry for every field at its place and no others.

Main statement, `generate_hasShape_iff`: a mock has the shape of its operation exactly if
`LastSelectsAll` holds, which says that of the fields under one key the last selects every key that
any of them selects. It is a statement about the document alone, and valid documents can fail it: a
walk gives every field an object of its own, and in a merge the last one replaces the others.

What a walk makes of a place is a suffix of the fields that stand there. So it has no key too many,
and the keys that it lacks are those that fields before the last one would have added.
-/

set_option autoImplicit false

namespace MockGraph

open Syntax

/-! ## 1. Places in an object -/

namespace Json

/-- The object inside one-element lists. -/
def inner? : Json → Option Object
  | .object members => some members
  | .array [item] => item.inner?
  | _ => none

@[simp] theorem inner?_wrap (value : Json) (depth : Nat) :
    (value.wrap depth).inner? = value.inner? := by
  induction depth with
  | zero => rfl
  | succ depth ih => exact ih

namespace Object

/-- The object at a path of keys. -/
def at? (o : Object) : List String → Option Object
  | [] => some o
  | key :: path => ((o.get? key).bind inner?).bind fun inner => inner.at? path

end Object

end Json

/-- Every enum has a member that can stand for it. -/
def TypeSystem.EnumsHaveMembers (schema : TypeSystem) : Prop :=
  ∀ type ∈ schema.types, type.kind = .enum → type.enumValues ≠ []

instance (schema : TypeSystem) : Decidable schema.EnumsHaveMembers :=
  inferInstanceAs (Decidable (∀ type ∈ schema.types, type.kind = .enum → type.enumValues ≠ []))

namespace Walk

/-! ## 2. Fields and their places -/

mutual

/-- The fields of a selection on the type `cursor`, where `inside` gives those of a fragment. -/
def fieldsOf (inside : Name → List Occurrence) (cursor : Name) : Selection → List Occurrence
  | .field alias? name arguments _ nested => [⟨cursor, alias?.getD name, name, arguments, nested⟩]
  | .spread name _ => inside name
  | .inline condition _ nested => fieldsIn inside (condition.getD cursor) nested

def fieldsIn (inside : Name → List Occurrence) (cursor : Name) :
    List Selection → List Occurrence
  | [] => []
  | selection :: rest => fieldsOf inside cursor selection ++ fieldsIn inside cursor rest

end

/-- The fields of a fragment and of those spread in it. A fragment inside itself adds nothing. -/
def fragmentFields (context : Context) (stack : List Name) (name : Name) : List Occurrence :=
  match _hf : context.fragment? name with
  | none => []
  | some fragment =>
    if _hn : name ∈ stack then []
    else
      fieldsIn (fun inner => fragmentFields context (name :: stack) inner) fragment.typeCondition
        fragment.selections
termination_by (offStack context stack).length
decreasing_by exact length_offStack_cons_lt _hf _hn

/-- The fields of selections, those in fragments included. -/
def selectedFields (context : Context) (cursor : Name) (set : List Selection) : List Occurrence :=
  fieldsIn (fragmentFields context []) cursor set

/-- The fields that are selected on a field. -/
def subfields (context : Context) (field : Occurrence) : List Occurrence :=
  match descent? context.schema field.outer field.name with
  | some type => selectedFields context type field.nested
  | none => []

/-- The fields that share a key. -/
def under (key : String) (fields : List Occurrence) : List Occurrence :=
  fields.filter fun field => field.key = key

/-- All fields at a place. Below a key stands what is selected on any of the fields that share it.
-/
def fieldsAtPlace (context : Context) : List Occurrence → List String → List Occurrence
  | fields, [] => fields
  | fields, key :: path =>
    fieldsAtPlace context ((under key fields).flatMap (subfields context)) path

/-- An object has the shape of fields. -/
structure HasShape (context : Context) (fields : List Occurrence) (mock : Json.Object) : Prop where
  /-- Every field has an entry at its place. -/
  complete : ∀ path, ∀ field ∈ fieldsAtPlace context fields path,
    ∃ inner, mock.at? path = some inner ∧ field.key ∈ inner.keys
  /-- Every entry is that of a field at its place. -/
  exact : ∀ path inner, mock.at? path = some inner → ∀ key ∈ inner.keys,
    ∃ field ∈ fieldsAtPlace context fields path, field.key = key

/-- At every place, the last field under a key selects all keys that any field under it selects. -/
def LastSelectsAll (context : Context) (fields : List Occurrence) : Prop :=
  ∀ path key last, (under key (fieldsAtPlace context fields path)).getLast? = some last →
    ∀ field ∈ fieldsAtPlace context fields (path ++ [key]),
      ∃ inner ∈ subfields context last, inner.key = field.key

/-- The type of a field is an enum without members. -/
def isMemberless (schema : TypeSystem) (field : Occurrence) : Bool :=
  field.name ≠ "__typename" &&
    match schema.field field.outer field.name with
    | .error _ => false
    | .ok definition => (schema.type? definition.type.innerName).any fun type =>
        type.kind = .enum && type.enumValues.isEmpty

/-- The fields that contribute a value. -/
def producing (schema : TypeSystem) (fields : List Occurrence) : List Occurrence :=
  fields.filter fun field => !isMemberless schema field

section Fragment

variable {context : Context} {stack : List Name} {name : Name} {fragment : Fragment}

theorem fragmentFields_not_mem (hf : context.fragment? name = some fragment) (hn : name ∉ stack) :
    fragmentFields context stack name =
      fieldsIn (fragmentFields context (name :: stack)) fragment.typeCondition
        fragment.selections := by
  rw [fragmentFields]
  split
  · simp_all
  · next found hf' =>
    cases hf.symm.trans hf'
    rw [dif_neg hn]

end Fragment

/-! ## 3. What a walk keeps of a place -/

/-- The fields at a place if of the fields that share a key the last one replaces the others. -/
def keptAtPlace (context : Context) : List Occurrence → List String → List Occurrence
  | fields, [] => fields
  | fields, key :: path =>
    keptAtPlace context (((under key fields).getLast?.map (subfields context)).getD []) path

section Places

variable {context : Context} {fields kept : List Occurrence} {key : String} {path : List String}

theorem mem_under {field : Occurrence} :
    field ∈ under key fields ↔ field ∈ fields ∧ field.key = key := by
  simp [under]

theorem keptAtPlace_nil (path : List String) : keptAtPlace context [] path = [] := by
  induction path with
  | nil => rfl
  | cons key path ih => exact ih

theorem fieldsAtPlace_append : fieldsAtPlace context fields (path ++ [key]) =
    (under key (fieldsAtPlace context fields path)).flatMap (subfields context) := by
  induction path generalizing fields with
  | nil => rfl
  | cons first path ih => exact ih

theorem keptAtPlace_append : keptAtPlace context fields (path ++ [key]) =
    ((under key (keptAtPlace context fields path)).getLast?.map (subfields context)).getD [] := by
  induction path generalizing fields with
  | nil => rfl
  | cons first path ih => exact ih

theorem getLast?_under_of_suffix {last : Occurrence} (h : kept <:+ fields)
    (hl : (under key kept).getLast? = some last) : (under key fields).getLast? = some last := by
  obtain ⟨before, hu⟩ : under key kept <:+ under key fields := h.filter _
  obtain ⟨init, hi⟩ := List.getLast?_eq_some_iff.mp hl
  exact List.getLast?_eq_some_iff.mpr ⟨before ++ init, by rw [← hu, hi, List.append_assoc]⟩

/-- What a walk keeps of a place is a suffix of what stands there. -/
theorem suffix_fieldsAtPlace (h : kept <:+ fields) (path : List String) :
    keptAtPlace context kept path <:+ fieldsAtPlace context fields path := by
  induction path generalizing kept fields with
  | nil => exact h
  | cons key path ih =>
    refine ih ?_
    cases hl : (under key kept).getLast? with
    | none => exact List.nil_suffix
    | some last =>
      obtain ⟨init, hi⟩ := List.getLast?_eq_some_iff.mp (getLast?_under_of_suffix h hl)
      rw [hi, List.flatMap_append, List.flatMap_singleton]
      exact List.suffix_append _ _

theorem getLast?_of_kept {field : Occurrence} (hm : field ∈ keptAtPlace context fields path) :
    ∃ last, (under field.key (keptAtPlace context fields path)).getLast? = some last ∧
      (under field.key (fieldsAtPlace context fields path)).getLast? = some last := by
  have hu : field ∈ under field.key (keptAtPlace context fields path) := mem_under.mpr ⟨hm, rfl⟩
  cases hl : (under field.key (keptAtPlace context fields path)).getLast? with
  | none =>
    rw [List.getLast?_eq_none_iff.mp hl] at hu
    cases hu
  | some last =>
    exact ⟨last, rfl, getLast?_under_of_suffix (suffix_fieldsAtPlace List.suffix_rfl path) hl⟩

/-- The last fields select all keys exactly if a walk keeps a field for every key. -/
theorem lastSelectsAll_iff : LastSelectsAll context fields ↔
    ∀ path, ∀ field ∈ fieldsAtPlace context fields path,
      ∃ kept ∈ keptAtPlace context fields path, kept.key = field.key := by
  constructor
  · intro h path
    -- From the end of the path, because what is kept above decides which field is the last.
    induction path using List.reverseRecOn with
    | nil => exact fun field hm => ⟨field, hm, rfl⟩
    | append_singleton path key ih =>
      intro field hm
      have hselected := hm
      rw [fieldsAtPlace_append] at hm
      obtain ⟨parent, hparent, -⟩ := List.mem_flatMap.mp hm
      obtain ⟨hthere, rfl⟩ := mem_under.mp hparent
      obtain ⟨kept, hkept, hkey⟩ := ih parent hthere
      obtain ⟨last, hlast, hall⟩ := getLast?_of_kept hkept
      rw [hkey] at hlast hall
      obtain ⟨inner, hinner, hsame⟩ := h path parent.key last hall field hselected
      refine ⟨inner, ?_, hsame⟩
      rw [keptAtPlace_append, hlast]
      exact hinner
  · intro h path key last hlast field hm
    have hmem := mem_under.mp (List.mem_of_getLast? hlast)
    obtain ⟨kept, hkept, hkey⟩ := h path last hmem.1
    rw [hmem.2] at hkey
    obtain ⟨last', hlast', hall⟩ := getLast?_of_kept hkept
    rw [hkey] at hlast' hall
    cases hlast.symm.trans hall
    obtain ⟨inner, hinner, hsame⟩ := h (path ++ [key]) field hm
    rw [keptAtPlace_append, hlast'] at hinner
    exact ⟨inner, hinner, hsame⟩

end Places

/-! ## 4. What a walk makes of a place -/

/-- A field contributes a value under its key, in an expansion without a stack. -/
def Gives (context : Context) (field : Occurrence) (value : Json) : Prop :=
  expandOne context (expandFragment context []) field.outer
      (.field (some field.key) field.name field.arguments [] field.nested) =
    .ok [(field.key, value)]

/-- An object comes from another one by laying fields over it: under every key is the value of the
last field that has it. -/
def Lays (context : Context) (fields : List Occurrence) (mock after : Json.Object) : Prop :=
  ∀ key, match (under key fields).getLast? with
    | some last => ∃ value, after.get? key = some value ∧ Gives context last value
    | none => after.get? key = mock.get? key

theorem Lays.nil (context : Context) (mock : Json.Object) : Lays context [] mock mock :=
  fun _ => rfl

theorem Lays.cases {context : Context} {fields : List Occurrence} {mock after : Json.Object}
    (h : Lays context fields mock after) (key : String) :
    ((under key fields).getLast? = none ∧ after.get? key = mock.get? key) ∨
      ∃ last value, (under key fields).getLast? = some last ∧ after.get? key = some value ∧
        Gives context last value := by
  have hkey := h key
  cases hl : (under key fields).getLast? with
  | none =>
    rw [hl] at hkey
    exact .inl ⟨rfl, hkey⟩
  | some last =>
    rw [hl] at hkey
    obtain ⟨value, hv, hgives⟩ := hkey
    exact .inr ⟨last, value, rfl, hv, hgives⟩

theorem Lays.single {context : Context} {field : Occurrence} {value : Json}
    (h : Gives context field value) : Lays context [field] [] [(field.key, value)] := by
  intro key
  by_cases hk : field.key = key
  · have hu : under key [field] = [field] := by simp [under, hk]
    rw [hu]
    exact ⟨value, by simp [Json.Object.get?, hk], h⟩
  · have hu : under key [field] = [] := by simp [under, hk]
    rw [hu]
    simp [Json.Object.get?, hk]

theorem Lays.mem_keys_iff {context : Context} {fields : List Occurrence} {mock : Json.Object}
    (h : Lays context fields [] mock) (key : String) :
    key ∈ mock.keys ↔ ∃ field ∈ fields, field.key = key := by
  have h := h key
  rw [Json.Object.mem_keys_iff]
  cases hl : (under key fields).getLast? with
  | none =>
    rw [hl] at h
    have hnone : mock.get? key = none := h
    rw [hnone]
    have hu : under key fields = [] := List.getLast?_eq_none_iff.mp hl
    simpa [under] using hu
  | some last =>
    rw [hl] at h
    obtain ⟨value, hv, -⟩ := h
    rw [hv]
    have hm := mem_under.mp (List.mem_of_getLast? hl)
    exact ⟨fun _ => ⟨last, hm⟩, fun _ => rfl⟩

theorem Lays.append {context : Context} {fields rest : List Occurrence}
    {mock members after : Json.Object} (h : Lays context fields [] members)
    (hn : members.keys.Nodup) (hrest : Lays context rest (mock.merge members) after) :
    Lays context (fields ++ rest) mock after := by
  intro key
  have h := h key
  have hrest := hrest key
  rw [under, List.filter_append, List.getLast?_append]
  change match ((under key rest).getLast?.or (under key fields).getLast?) with
    | some last => ∃ value, after.get? key = some value ∧ Gives context last value
    | none => after.get? key = mock.get? key
  cases hr : (under key rest).getLast? with
  | some last =>
    rw [hr] at hrest
    exact hrest
  | none =>
    rw [hr] at hrest
    rw [Json.Object.get?_merge mock hn key] at hrest
    cases hf : (under key fields).getLast? with
    | some last =>
      rw [hf] at h
      obtain ⟨value, hv, hg⟩ := h
      exact ⟨value, by rw [hrest, hv]; rfl, hg⟩
    | none =>
      rw [hf] at h
      have hnone : members.get? key = none := h
      show after.get? key = mock.get? key
      rw [hrest, hnone]
      rfl

/-- What a field leads to is read off its definition. -/
theorem definition_of_target {schema : TypeSystem} {cursor name : Name} {found : Target}
    (h : target schema cursor name = .ok found) :
    ∃ definition type, schema.field cursor name = .ok definition ∧
      schema.type? definition.type.innerName = some type ∧
      found = ⟨definition.type.innerName, type.kind,
        (FieldType.ofTypeRef definition.type).unwrap.2⟩ := by
  cases hf : schema.field cursor name with
  | error mismatch =>
    simp [target, TypeSystem.fieldType, hf, Except.map, bind, Except.bind] at h
  | ok definition =>
    cases ht : schema.type? definition.type.innerName with
    | none =>
      have hk : schema.kind? definition.type.innerName = none := by rw [TypeSystem.kind?, ht]; rfl
      simp only [target, TypeSystem.fieldType, hf, Except.map, bind, Except.bind,
        FieldType.innerName_ofTypeRef, hk] at h
      cases h
    | some type =>
      have hk : schema.kind? definition.type.innerName = some type.kind := by
        rw [TypeSystem.kind?, ht]
        rfl
      rw [target_of_field hf hk] at h
      cases h
      exact ⟨definition, type, rfl, ht, rfl⟩

/-- A field of an enum without members has no value. -/
theorem leafSample_eq_none_iff {schema : TypeSystem} {field : Occurrence} {found : Target}
    (hn : field.name ≠ "__typename")
    (ht : target schema field.outer field.name = .ok found) :
    leafSample schema found.kind found.name field.name = none ↔
      isMemberless schema field = true := by
  obtain ⟨definition, type, hf, htype, rfl⟩ := definition_of_target ht
  cases hk : type.kind <;>
    simp [isMemberless, hn, hf, htype, hk, leafSample, TypeSystem.firstEnumValue?]

theorem not_isMemberless_of_composite {schema : TypeSystem} {field : Occurrence} {found : Target}
    (ht : target schema field.outer field.name = .ok found)
    (hk : found.kind.isComposite = true) : isMemberless schema field = false := by
  obtain ⟨definition, type, hf, htype, rfl⟩ := definition_of_target ht
  have hne : type.kind ≠ .enum := by
    intro he
    simp [he, TypeKind.isComposite] at hk
  simp [isMemberless, hf, htype, hne]

theorem producing_of_enumsHaveMembers {schema : TypeSystem} (he : schema.EnumsHaveMembers)
    (fields : List Occurrence) : producing schema fields = fields := by
  refine List.filter_eq_self.mpr fun field _ => ?_
  unfold isMemberless
  cases schema.field field.outer field.name with
  | error mismatch => simp
  | ok definition =>
    cases ht : schema.type? definition.type.innerName with
    | none => simp [ht]
    | some type =>
      by_cases hk : type.kind = .enum
      · have hne := he type (List.mem_of_find?_eq_some ht) hk
        simp [ht, hne]
      · simp [ht, hk]

theorem leafSample_inner? {schema : TypeSystem} {kind : TypeKind} {type field : Name} {value : Json}
    (h : leafSample schema kind type field = some value) : value.inner? = none := by
  have hscalar : (scalarSample type field).inner? = none := by
    unfold scalarSample
    split <;> rfl
  cases kind with
  | enum =>
    obtain ⟨member, -, rfl⟩ := Option.map_eq_some_iff.mp h
    rfl
  | _ =>
    cases h
    exact hscalar

/-- No resolver has a say. -/
def Context.Unbound (context : Context) : Prop :=
  ∀ type, context.registry.constant? type = none

/-- No resolver has a say, and every enum has a member. -/
structure Context.IsPlain (context : Context) : Prop where
  unbound : context.Unbound
  members : context.schema.EnumsHaveMembers

section Object

variable {context : Context} {cursor name : Name} {mock : Json.Object}

/-- A field that is expanded contributes one value, and it does so without a stack, unless its type
is an enum without members. -/
theorem gives_of_expandOne (hu : context.Unbound) {expand : Name → Except WalkError Json.Object}
    (hx : ∀ name mock, expand name = .ok mock → expandFragment context [] name = .ok mock)
    {alias? : Option Name} {arguments : List Argument} {directives : List Directive}
    {nested : List Selection} {members : Json.Object}
    (h : expandOne context expand cursor (.field alias? name arguments directives nested) =
      .ok members) :
    let field : Occurrence := ⟨cursor, alias?.getD name, name, arguments, nested⟩
    (isMemberless context.schema field = true ∧ members = []) ∨
      isMemberless context.schema field = false ∧
        ∃ value, members = [(field.key, value)] ∧ Gives context field value := by
  intro field
  have hvalue : (isMemberless context.schema field = true ∧ members = []) ∨
      isMemberless context.schema field = false ∧ ∃ value, members = [(field.key, value)] := by
    rcases expandOne_ok h with hn | ⟨hn, found, ht, hi⟩
    · rw [expandOne_typename hn] at h
      cases h
      exact .inr ⟨by simp [isMemberless, field, hn], _, rfl⟩
    have hleaf := @leafSample_eq_none_iff _ field _ hn ht
    cases hk : found.kind.isComposite with
    | false =>
      rw [expandOne_leaf hn ht hk hi, hu] at h
      cases hv : leafSample context.schema found.kind found.name name with
      | none =>
        rw [hv] at h
        cases h
        exact .inl ⟨hleaf.mp hv, rfl⟩
      | some value =>
        rw [hv] at h
        cases h
        exact .inr ⟨by simpa [field, hv] using hleaf, _, rfl⟩
    | true =>
      obtain ⟨inner, -, hmembers⟩ := expandOne_composite_ok hn ht hk h
      exact .inr ⟨@not_isMemberless_of_composite _ field _ ht hk, _, hmembers⟩
  obtain hnone | ⟨hm, value, rfl⟩ := hvalue
  · exact .inl hnone
  refine .inr ⟨hm, value, rfl, ?_⟩
  -- The field under its key instead of an alias is expanded in the same way.
  have hsame := expandOne_mono hx _ h
  rw [expandOne] at hsame
  rw [Gives, expandOne]
  exact hsame

/-- The values that a field can contribute. -/
theorem Gives.cases (hu : context.Unbound) {field : Occurrence} {value : Json}
    (h : Gives context field value) :
    (field.name = "__typename" ∧ value = .string field.outer) ∨
    field.name ≠ "__typename" ∧ ∃ found, target context.schema field.outer field.name = .ok found ∧
      found.kind ≠ .inputObject ∧
      ((found.kind.isComposite = false ∧ ∃ sample,
        leafSample context.schema found.kind found.name field.name = some sample ∧
          value = sample.wrap found.depth) ∨
      found.kind.isComposite = true ∧ ∃ mock,
        expandAll context (expandFragment context []) found.name [] field.nested = .ok mock ∧
          value = (Json.object mock).wrap found.depth) := by
  rcases expandOne_ok h with hn | ⟨hn, found, ht, hi⟩
  · rw [Gives, expandOne_typename hn] at h
    cases h
    exact .inl ⟨hn, rfl⟩
  refine .inr ⟨hn, found, ht, hi, ?_⟩
  cases hk : found.kind.isComposite with
  | false =>
    rw [Gives, expandOne_leaf hn ht hk hi, hu] at h
    cases hv : leafSample context.schema found.kind found.name field.name with
    | none =>
      rw [hv] at h
      cases h
    | some sample =>
      rw [hv] at h
      cases h
      exact .inl ⟨rfl, sample, rfl, rfl⟩
  | true =>
    obtain ⟨mock, hnested, hmembers⟩ := expandOne_composite_ok hn ht hk h
    rw [hu] at hmembers
    cases hmembers
    exact .inr ⟨rfl, mock, hnested, rfl⟩

/-- What a field contributes is an object if the walk descends into it, and it is that of the
selections there. -/
theorem Gives.inner? (hu : context.Unbound) {field : Occurrence} {value : Json}
    (h : Gives context field value) :
    (descent? context.schema field.outer field.name = none ∧ value.inner? = none) ∨
      ∃ type mock, descent? context.schema field.outer field.name = some type ∧
        expandAll context (expandFragment context []) type [] field.nested = .ok mock ∧
        value.inner? = some mock := by
  rcases h.cases hu with ⟨hn, rfl⟩ | ⟨hn, found, ht, -, ⟨hk, sample, hv, rfl⟩ |
    ⟨hk, mock, hnested, rfl⟩⟩
  · exact .inl ⟨by rw [descent?, if_pos hn], rfl⟩
  · exact .inl ⟨by simp [descent?, ht, hk], by rw [Json.inner?_wrap, leafSample_inner? hv]⟩
  · exact .inr ⟨found.name, mock, descent?_composite hn ht hk, hnested, by
      rw [Json.inner?_wrap]
      rfl⟩

mutual

/-- The members that a selection contributes come from its fields. -/
theorem lays_of_expandOne (hu : context.Unbound) {expand : Name → Except WalkError Json.Object}
    {inside : Name → List Occurrence}
    (hx : ∀ name mock, expand name = .ok mock → expandFragment context [] name = .ok mock)
    (hi : ∀ name mock, expand name = .ok mock →
      mock.keys.Nodup ∧ Lays context (producing context.schema (inside name)) [] mock)
    {cursor : Name} {members : Json.Object} :
    ∀ selection, expandOne context expand cursor selection = .ok members →
      members.keys.Nodup ∧
        Lays context (producing context.schema (fieldsOf inside cursor selection)) [] members
  | .field alias? name arguments directives nested, h => by
    rcases gives_of_expandOne hu hx h with ⟨hm, rfl⟩ | ⟨hm, value, rfl, hg⟩
    · refine ⟨List.nodup_nil, ?_⟩
      rw [fieldsOf, producing, List.filter_cons_of_neg (by simp [hm])]
      exact .nil context []
    · refine ⟨by simp [Json.Object.keys], ?_⟩
      rw [fieldsOf, producing, List.filter_cons_of_pos (by simp [hm])]
      exact .single hg
  | .spread name directives, h => hi name members h
  | .inline condition directives nested, h => by
    rw [expandOne] at h
    exact (lays_of_expandAll hu hx hi nested h).imp_left fun hn => hn List.nodup_nil

theorem lays_of_expandAll (hu : context.Unbound) {expand : Name → Except WalkError Json.Object}
    {inside : Name → List Occurrence}
    (hx : ∀ name mock, expand name = .ok mock → expandFragment context [] name = .ok mock)
    (hi : ∀ name mock, expand name = .ok mock →
      mock.keys.Nodup ∧ Lays context (producing context.schema (inside name)) [] mock)
    {cursor : Name} {mock after : Json.Object} :
    ∀ set, expandAll context expand cursor mock set = .ok after →
      (mock.keys.Nodup → after.keys.Nodup) ∧
        Lays context (producing context.schema (fieldsIn inside cursor set)) mock after
  | [], h => by
    cases h
    exact ⟨id, .nil context mock⟩
  | selection :: rest, h => by
    obtain ⟨members, hone, hrest⟩ := expandAll_cons_ok h
    obtain ⟨hn, hl⟩ := lays_of_expandOne hu hx hi selection hone
    obtain ⟨hn', hl'⟩ := lays_of_expandAll hu hx hi rest hrest
    rw [fieldsIn, producing, List.filter_append]
    exact ⟨fun hmock => hn' (Json.Object.nodup_merge hmock members), hl.append hn hl'⟩

end

theorem lays_of_expandFragment (hu : context.Unbound) {stack : List Name} {name : Name}
    {mock : Json.Object} (h : expandFragment context stack name = .ok mock) :
    mock.keys.Nodup ∧
      Lays context (producing context.schema (fragmentFields context stack name)) [] mock := by
  obtain ⟨fragment, hf, hn, hall⟩ := expandFragment_ok h
  rw [fragmentFields_not_mem hf hn]
  have hx : ∀ inner found, expandFragment context (name :: stack) inner = .ok found →
      expandFragment context [] inner = .ok found :=
    fun inner found hi => expandFragment_mono (fun _ hm => by cases hm) hi
  have hi : ∀ inner found, expandFragment context (name :: stack) inner = .ok found →
      found.keys.Nodup ∧ Lays context
        (producing context.schema (fragmentFields context (name :: stack) inner)) [] found :=
    fun inner found hi => lays_of_expandFragment hu hi
  exact (lays_of_expandAll hu hx hi _ hall).imp_left fun hn => hn List.nodup_nil
termination_by (offStack context stack).length
decreasing_by exact length_offStack_cons_lt hf hn

/-- The object of selections comes from the fields that contribute to it. -/
theorem lays_producing (hu : context.Unbound) {set : List Selection}
    (h : expandAll context (expandFragment context []) cursor [] set = .ok mock) :
    mock.keys.Nodup ∧
      Lays context (producing context.schema (selectedFields context cursor set)) [] mock :=
  (lays_of_expandAll hu (fun _ _ hx => hx) (fun _ _ => lays_of_expandFragment hu) set h).imp_left
    fun hn => hn List.nodup_nil

theorem lays_selectedFields (hp : context.IsPlain) {set : List Selection}
    (h : expandAll context (expandFragment context []) cursor [] set = .ok mock) :
    Lays context (selectedFields context cursor set) [] mock := by
  have hl := (lays_producing hp.unbound h).2
  rwa [producing_of_enumsHaveMembers hp.members] at hl

/-- What a walk makes of a place has the keys of the fields that it keeps there. -/
theorem keys_at? (hp : context.IsPlain) {set : List Selection}
    (h : expandAll context (expandFragment context []) cursor [] set = .ok mock)
    (path : List String) (key : String) :
    (∃ inner, mock.at? path = some inner ∧ key ∈ inner.keys) ↔
      ∃ field ∈ keptAtPlace context (selectedFields context cursor set) path, field.key = key := by
  induction path generalizing cursor set mock with
  | nil =>
    rw [keptAtPlace, ← (lays_selectedFields hp h).mem_keys_iff key]
    simp [Json.Object.at?]
  | cons first path ih =>
    have hl := lays_selectedFields hp h first
    rw [keptAtPlace, Json.Object.at?]
    cases hlast : (under first (selectedFields context cursor set)).getLast? with
    | none =>
      rw [hlast] at hl
      have hnone : mock.get? first = none := hl
      simp [hnone, keptAtPlace_nil]
    | some last =>
      rw [hlast] at hl
      obtain ⟨value, hv, hg⟩ := hl
      -- Below a leaf there is nothing, and below a composite field an object of its selections.
      rcases hg.inner? hp.unbound with ⟨hd, hinner⟩ | ⟨type, inner, hd, hnested, hinner⟩
      · simp [hv, hinner, subfields, hd, keptAtPlace_nil]
      · simpa [hv, hinner, subfields, hd] using ih hnested

/-- **A mock has the shape of its selections exactly if the last fields select all keys.** -/
theorem hasShape_iff (hp : context.IsPlain) {set : List Selection}
    (h : expandAll context (expandFragment context []) cursor [] set = .ok mock) :
    HasShape context (selectedFields context cursor set) mock ↔
      LastSelectsAll context (selectedFields context cursor set) := by
  rw [lastSelectsAll_iff]
  constructor
  · intro hs path field hm
    exact (keys_at? hp h path field.key).mp (hs.complete path field hm)
  · intro hall
    refine ⟨fun path field hm => (keys_at? hp h path field.key).mpr (hall path field hm), ?_⟩
    intro path inner hat key hk
    obtain ⟨field, hm, hkey⟩ := (keys_at? hp h path key).mp ⟨inner, hat, hk⟩
    exact ⟨field, (suffix_fieldsAtPlace List.suffix_rfl path).subset hm, hkey⟩

end Object

end Walk

/-! ## 5. Generations -/

/-- **Which mocks have the shape of their operation.** From a schema that is well formed and whose
enums have members, and a document that is valid against it, there is a mock if no resolver is
bound; and it has an entry for every field at its place, and no others, exactly if of the fields
under each key the last selects all keys that any of them selects. -/
theorem generate_hasShape_iff {m : Type → Type} [Monad m] [LawfulMonad m] {document : Document}
    {operation : Operation} {source : SchemaSource} {options : Options} {schema : TypeSystem}
    {root : Name} (calls : Calls)
    (ho : findOperation document options.operation = .ok operation)
    (hl : source.load options.rules = .ok schema)
    (hc : checkDocument options.rules schema document = .ok ())
    (hs : schema.WellFormed) (he : schema.EnumsHaveMembers)
    (hd : document.ValidFor schema operation) (hr : schema.root? operation.kind = some root)
    (hb : options.registry = .empty) :
    let context : Walk.Context := ⟨schema, .empty, document.fragments⟩
    let fields := Walk.selectedFields context root operation.selections
    ∃ mock after,
      generate document (pure (.ok source) : m (Except ProjectError SchemaSource)) options calls =
        pure (.ok (.object mock), after) ∧
      (Walk.HasShape context fields mock ↔ Walk.LastSelectsAll context fields) := by
  intro context fields
  obtain ⟨mock, hok⟩ := hd.perform_ok hs hr .empty calls
  obtain ⟨after, hw, -⟩ := Walk.runs_perform context root operation.selections calls
  have hall := hw.eq_expandAll Registry.isConstant_empty
  have hplain : context.IsPlain := ⟨fun _ => rfl, he⟩
  refine ⟨mock, (Walk.perform context root operation.selections calls).2, ?_, ?_⟩
  · rw [generate_eq_walk calls ho hl hc hr, walkOperation, hb]
    simp only [hok]
    rfl
  · exact Walk.hasShape_iff hplain (hall.trans hok)

namespace Walk.Sample

/-- An operation that selects one field twice, with other fields on it each time. -/
def split : Operation :=
  ⟨.query, none, [], [], [field "me" [field "name" []], field "me" [field "team" [field "id" []]]]⟩

theorem split_check :
    checkDocument .all staff.withoutUnusedScalars [.operation split] = .ok () := by
  have hv : Document.violations staff.withoutUnusedScalars [.operation split] = [] := by
    have hreached : reachedBy [] split = [] := reachedBy_nil rfl
    have hoperations : Document.resolvedOperations staff.withoutUnusedScalars
        [.operation split] = [(split, "Query")] := rfl
    have hfragments : (Document.fragments [.operation split]).map
        (·.resolved staff.withoutUnusedScalars) = [] := rfl
    rw [Document.violations, hoperations, hfragments, resolvedViolations]
    simp only [List.flatMap_cons, List.flatMap_nil, operationViolations, hreached]
    exact List.isEmpty_iff.mp (by decide +kernel)
  exact checkDocument_of_violations .all hv

end Walk.Sample

/-- With both checks, on a document in which a fragment is spread twice. -/
theorem generate_hasShape_iff_roster :
    let context : Walk.Context :=
      ⟨Walk.Sample.staff.withoutUnusedScalars, .empty, Walk.Sample.rosterDocument.fragments⟩
    let fields := Walk.selectedFields context "Query" Walk.Sample.everyone
    ∃ mock after,
      generate (m := Id) Walk.Sample.rosterDocument (pure (.ok (.built Walk.Sample.staff)))
        .standard [] = pure (.ok (.object mock), after) ∧
      (Walk.HasShape context fields mock ↔ Walk.LastSelectsAll context fields) :=
  generate_hasShape_iff [] rfl Walk.Sample.staff_load Walk.Sample.roster_check
    Walk.Sample.staff_wellFormed (by decide) Walk.Sample.roster_validFor rfl rfl

/-- **Fields can be lost.** A document that passes both checks selects `name` on `me`, and the mock
of `me` has no such entry, because `me` is selected once more. -/
theorem not_hasShape_split :
    let context : Walk.Context := ⟨Walk.Sample.staff.withoutUnusedScalars, .empty, []⟩
    let fields := Walk.selectedFields context "Query" Walk.Sample.split.selections
    let id : Json := .string "mock-value-for-field-\"id\""
    let mock : Json.Object := [("me", .object [("team", .object [("id", id)])])]
    context.schema.EnumsHaveMembers ∧
    generate (m := Id) [.operation Walk.Sample.split] (pure (.ok (.built Walk.Sample.staff)))
      .standard [] = pure (.ok (.object mock), []) ∧
    ¬ Walk.HasShape context fields mock := by
  intro context fields id mock
  refine ⟨by decide, ?_, ?_⟩
  · rw [generate_eq_walk [] rfl Walk.Sample.staff_load Walk.Sample.split_check rfl]
    rfl
  · intro h
    have hplace : Walk.fieldsAtPlace context fields ["me"] =
        [⟨"User", "name", "name", [], []⟩,
          ⟨"User", "team", "team", [], [Walk.Sample.field "id" []]⟩] := rfl
    obtain ⟨inner, hat, hk⟩ := h.complete ["me"] ⟨"User", "name", "name", [], []⟩ (by
      rw [hplace]
      exact List.mem_cons_self)
    cases hat
    exact absurd hk (by decide)

end MockGraph
