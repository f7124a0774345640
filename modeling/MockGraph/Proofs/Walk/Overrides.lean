import MockGraph.Proofs.Json.Merge
import MockGraph.Proofs.Walk.Influence

/-!
# `Proofs/Walk/Overrides`: what one more constant changes

With constant resolvers the answers in a plan are known from the types of its fields alone, so the
mock of a plan is made from the inside to the outside without calls. A `Treatment` says what becomes
of the value that a field has made before it goes into its lists, under its key and into the merges.

Main statement, `generate_overlaid`: a constant for a type that has had no resolver treats the
values of the fields of this type and no others. Since types may be recursive, such a field may
stand below another one. What is below is treated first, so the outer override wins.

Where an enum without members is overridden there was no value before, and now there is one
(`generate_overlaid_memberless`). So a treatment is given the absence of a value, too.
-/

set_option autoImplicit false

namespace MockGraph

open Syntax

/-- The members of a value that is an object have keys that differ. -/
def Json.KeysDiffer : Json → Prop
  | .object members => (Json.Object.keys members).Nodup
  | _ => True

namespace Registry

theorem constant?_insert_self (registry : Registry) (type : Name) (value : Json) :
    (registry.insert type (.constant value)).constant? type = some value := by
  rw [constant?, get?_insert_self]

theorem constant?_insert_of_ne (registry : Registry) {type other : Name} (value : Json)
    (h : other ≠ type) :
    (registry.insert type (.constant value)).constant? other = registry.constant? other := by
  rw [constant?, constant?, get?_insert_of_ne registry (.constant value) h]

theorem constant?_of_get?_eq_none {registry : Registry} {type : Name}
    (h : registry.get? type = none) : registry.constant? type = none := by
  rw [constant?, h]

end Registry

namespace Walk

/-! ## 1. Treated plans -/

/-- What becomes of the values that fields have, and of the absence of a value. -/
abbrev Treatment := Target → Option Json → Option Json

/-- Every value stays as it is. -/
def untouched : Treatment := fun _ value? => value?

/-- The value of a field with constant resolvers, where the selections on it give `mock`. -/
def constantValue (context : Context) (field : Name) (found : Target) (mock : Json.Object) :
    Option Json :=
  if found.kind.isComposite then
    some (overlay mock (context.registry.constant? found.name))
  else
    (context.registry.constant? found.name).or
      (leafSample context.schema found.kind found.name field)

mutual

/-- What a selection contributes if the values of fields are treated, those on the inside first. -/
def Plan.treated (context : Context) (treat : Treatment) : Plan → Json.Object
  | .typename key cursor => [(key, .string cursor)]
  | .field field found _ inner =>
    fieldMembers field.key found.depth
      (treat found (constantValue context field.name found (treatedInto context treat [] inner)))
  | .inline parts => treatedInto context treat [] parts
  | .spread _ parts => treatedInto context treat [] parts

/-- Merges what selections contribute into `mock`. -/
def treatedInto (context : Context) (treat : Treatment) (mock : Json.Object) :
    List Plan → Json.Object
  | [] => mock
  | part :: rest => treatedInto context treat (mock.merge (part.treated context treat)) rest

end

/-- What holds of each field among the parts of a plan. -/
def EveryField (p : Occurrence → Target → Nat → Prop) (nodes : List Plan) : Prop :=
  ∀ field found call inner, .field field found call inner ∈ nodes → p field found call

section EveryField

variable {p : Occurrence → Target → Nat → Prop}

theorem EveryField.head {field : Occurrence} {found : Target} {call : Nat} {inner rest : List Plan}
    (h : EveryField p (.field field found call inner :: rest)) : p field found call :=
  h field found call inner List.mem_cons_self

theorem EveryField.tail {part : Plan} {rest : List Plan} (h : EveryField p (part :: rest)) :
    EveryField p rest := by
  intro field found call inner hm
  exact h field found call inner (List.mem_cons_of_mem _ hm)

theorem EveryField.of_append {nodes rest : List Plan} (h : EveryField p (nodes ++ rest)) :
    EveryField p nodes ∧ EveryField p rest := by
  constructor
  · intro field found call inner hm
    exact h field found call inner (List.mem_append_left _ hm)
  · intro field found call inner hm
    exact h field found call inner (List.mem_append_right _ hm)

end EveryField

theorem nodup_treatedInto (context : Context) (treat : Treatment) {mock : Json.Object}
    (h : mock.keys.Nodup) (parts : List Plan) :
    (treatedInto context treat mock parts).keys.Nodup := by
  induction parts generalizing mock with
  | nil => exact h
  | cons part rest ih => exact ih (Json.Object.nodup_merge h _)

section Constants

variable {context : Context} {answer : Nat → Option Json}

mutual

/-- If the answers are the constants of the types, each field has its constant value. -/
theorem members_eq_treated : ∀ part : Plan,
    EveryField (fun _ found call => answer call = context.registry.constant? found.name)
      part.nodes →
    part.members context.schema answer = part.treated context untouched
  | .typename key cursor, _ => by rw [Plan.members, Plan.treated]
  | .field field found call inner, h => by
    rw [Plan.nodes] at h
    rw [Plan.members, Plan.treated, filledInto_eq_treatedInto [] inner h.tail, h.head]
    rfl
  | .inline parts, h => by
    rw [Plan.nodes] at h
    rw [Plan.members, Plan.treated, filledInto_eq_treatedInto [] parts h.tail]
  | .spread name parts, h => by
    rw [Plan.nodes] at h
    rw [Plan.members, Plan.treated, filledInto_eq_treatedInto [] parts h.tail]

theorem filledInto_eq_treatedInto (mock : Json.Object) : ∀ parts : List Plan,
    EveryField (fun _ found call => answer call = context.registry.constant? found.name)
      (nodesIn parts) →
    filledInto context.schema answer mock parts = treatedInto context untouched mock parts
  | [], _ => by rw [filledInto, treatedInto]
  | part :: rest, h => by
    rw [nodesIn] at h
    obtain ⟨hpart, hrest⟩ := h.of_append
    rw [filledInto, treatedInto, members_eq_treated part hpart]
    exact filledInto_eq_treatedInto _ rest hrest

end

end Constants

section Congruence

variable {context context' : Context} {treat treat' : Treatment}

/-- The treated values of a field are the same on both sides, whatever is selected on it. -/
def TreatedAlike (context context' : Context) (treat treat' : Treatment) (field : Occurrence)
    (found : Target) : Prop :=
  ∀ mock : Json.Object, mock.keys.Nodup →
    treat found (constantValue context field.name found mock) =
      treat' found (constantValue context' field.name found mock)

mutual

theorem treated_congr : ∀ part : Plan,
    EveryField (fun field found _ => TreatedAlike context context' treat treat' field found)
      part.nodes →
    part.treated context treat = part.treated context' treat'
  | .typename key cursor, _ => by rw [Plan.treated, Plan.treated]
  | .field field found call inner, h => by
    rw [Plan.nodes] at h
    have hvalue := h.head _ (nodup_treatedInto context treat Json.Object.nodup_keys_nil inner)
    rw [Plan.treated, Plan.treated, hvalue, treatedInto_congr [] inner h.tail]
  | .inline parts, h => by
    rw [Plan.nodes] at h
    rw [Plan.treated, Plan.treated, treatedInto_congr [] parts h.tail]
  | .spread name parts, h => by
    rw [Plan.nodes] at h
    rw [Plan.treated, Plan.treated, treatedInto_congr [] parts h.tail]

theorem treatedInto_congr (mock : Json.Object) : ∀ parts : List Plan,
    EveryField (fun field found _ => TreatedAlike context context' treat treat' field found)
      (nodesIn parts) →
    treatedInto context treat mock parts = treatedInto context' treat' mock parts
  | [], _ => by rw [treatedInto, treatedInto]
  | part :: rest, h => by
    rw [nodesIn] at h
    obtain ⟨hpart, hrest⟩ := h.of_append
    rw [treatedInto, treatedInto, treated_congr part hpart]
    exact treatedInto_congr _ rest hrest

end

end Congruence

/-! ## 2. One more constant -/

/-- What an override makes of the value of a field: an object is laid over a composite value, which
keeps its other members, and anything else takes the place of the value. -/
def overridden (override : Json) (kind : TypeKind) (value? : Option Json) : Json :=
  match kind.isComposite, value?, override with
  | true, some (.object mock), .object overrides => .object (Json.Object.under mock overrides)
  | _, _, _ => override

/-- The fields of a type are overridden and no others. -/
def overriding (type : Name) (override : Json) : Treatment := fun found value? =>
  if found.name = type then some (overridden override found.kind value?) else value?

section Insert

variable {schema : TypeSystem} {registry : Registry} {fragments : List Fragment} {type : Name}
  {override : Json}

/-- A constant for a type without a resolver overrides what the type's fields have had. -/
theorem treatedAlike_insert (hr : registry.get? type = none) (ho : override.KeysDiffer)
    (field : Occurrence) (found : Target) :
    TreatedAlike ⟨schema, registry.insert type (.constant override), fragments⟩
      ⟨schema, registry, fragments⟩ untouched (overriding type override) field found := by
  intro mock hm
  unfold untouched overriding constantValue
  by_cases hn : found.name = type
  · have hnone : registry.constant? type = none := Registry.constant?_of_get?_eq_none hr
    rw [if_pos hn, hn, Registry.constant?_insert_self, hnone]
    cases hk : found.kind.isComposite with
    | false => simp [overridden, hk]
    | true =>
      cases override with
      | object overrides =>
        have hunder := Json.Object.merge_eq_under hm ho
        simp [overlay, overridden, hk, hunder]
      | _ => simp [overlay, overridden]
  · rw [if_neg hn, Registry.constant?_insert_of_ne registry override hn]

theorem treated_insert (hr : registry.get? type = none) (ho : override.KeysDiffer) (part : Plan) :
    part.treated ⟨schema, registry.insert type (.constant override), fragments⟩ untouched =
      part.treated ⟨schema, registry, fragments⟩ (overriding type override) :=
  treated_congr part fun field found _ _ _ => treatedAlike_insert hr ho field found

theorem treatedInto_insert (hr : registry.get? type = none) (ho : override.KeysDiffer)
    (mock : Json.Object) (parts : List Plan) :
    treatedInto ⟨schema, registry.insert type (.constant override), fragments⟩ untouched mock
        parts =
      treatedInto ⟨schema, registry, fragments⟩ (overriding type override) mock parts :=
  treatedInto_congr mock parts fun field found _ _ _ => treatedAlike_insert hr ho field found

end Insert

/-- An object that supplies the value of a composite field is in the value member by member,
whatever is below. -/
theorem treated_field_object {context : Context} {field : Occurrence} {found : Target} {call : Nat}
    {inner : List Plan} {overrides : Json.Object} (hk : found.kind.isComposite = true)
    (hr : context.registry.constant? found.name = some (.object overrides))
    (ho : overrides.keys.Nodup) :
    ∃ value : Json.Object,
      (Plan.field field found call inner).treated context untouched =
        [(field.key, (Json.object value).wrap found.depth)] ∧
      ∀ key ∈ overrides.keys, value.get? key = overrides.get? key := by
  refine ⟨(treatedInto context untouched [] inner).merge overrides, ?_, fun key hm => ?_⟩
  · rw [Plan.treated, untouched, constantValue, if_pos hk, hr]
    rfl
  · rw [Json.Object.mem_keys_iff] at hm
    rw [Json.Object.get?_merge _ ho, Option.or_of_isSome hm]

/-! ## 3. Walks and generations -/

/-- With constant resolvers a walk gives the untouched mock of its plan. -/
theorem perform_eq_treatedInto {context : Context} (hc : context.registry.IsConstant)
    {cursor : Name} {set : List Selection} {parts : List Plan}
    (hp : (plan context.schema context.fragments cursor set).1 = .ok parts) (calls : Calls) :
    (perform context cursor set calls).1 = .ok (treatedInto context untouched [] parts) := by
  obtain ⟨hasked, -, hplaces, -⟩ := plan_laysOut hp
  rw [perform_eq_plan, hp, hasked]
  refine congrArg Except.ok (filledInto_eq_treatedInto [] parts ?_)
  intro field found call inner hm
  obtain ⟨hfield, ht⟩ := hplaces field found call inner hm
  rw [getElem?_answersTo context _ calls hfield, answerOf, innerType?_of_target ht]
  exact congrArg Prod.fst (hc.run_call found.name _)

end Walk

/-- With constant resolvers a request that can be started succeeds where the walk has a plan. -/
theorem MockRequest.generate_ok_iff (request : MockRequest) {registry : Registry}
    (hc : registry.IsConstant) (calls : Calls) (json : Json) :
    (request.generate registry calls).1 = .ok json ↔
      ∃ operation schema root parts, request.start = .ok (operation, schema, root) ∧
        (Walk.plan schema request.document.fragments root operation.selections).1 = .ok parts ∧
        json = .object (Walk.treatedInto ⟨schema, registry, request.document.fragments⟩
          Walk.untouched [] parts) := by
  rw [MockRequest.generate_eq]
  cases hs : request.start with
  | error failure => simp
  | ok start =>
    obtain ⟨operation, schema, root⟩ := start
    simp only [walkOperation]
    cases hp : (Walk.plan schema request.document.fragments root operation.selections).1 with
    | error error =>
      rw [Walk.perform_eq_plan, hp]
      constructor
      · intro h
        cases h
      · rintro ⟨operation', schema', root', parts, h, hp', -⟩
        cases h
        cases hp.symm.trans hp'
    | ok parts =>
      have hw := @Walk.perform_eq_treatedInto ⟨schema, registry, request.document.fragments⟩ hc root
        operation.selections parts hp calls
      rw [hw]
      constructor
      · intro h
        cases h
        exact ⟨operation, schema, root, parts, rfl, hp, rfl⟩
      · rintro ⟨operation', schema', root', parts', h, hp', rfl⟩
        cases h
        cases hp.symm.trans hp'
        rfl

namespace Walk

/-- The mock `after` is the mock `mock` of the same plan, overridden in the values of one type. -/
structure OverlaidBy (context : Context) (type : Name) (override : Json) (parts : List Plan)
    (mock after : Json.Object) : Prop where
  before : mock = treatedInto context untouched [] parts
  /-- The fields of the type are treated where they stand, the inner ones first. -/
  treated : after = treatedInto context (overriding type override) [] parts
  /-- The type of a field is the one that the schema has for it, inside its lists. -/
  types : EveryField
    (fun field found _ => target context.schema field.outer field.name = .ok found) (nodesIn parts)
  /-- A part of the plan without fields of the type contributes what it has contributed. -/
  elsewhere : ∀ part ∈ nodesIn parts, EveryField (fun _ found _ => found.name ≠ type) part.nodes →
    part.treated context (overriding type override) = part.treated context untouched
  /-- The object that is laid over a composite value is in it member by member. It does not matter
  what was laid over values below it. -/
  verbatim : ∀ field found call inner (overrides : Json.Object),
    .field field found call inner ∈ nodesIn parts →
    found.kind.isComposite = true →
    (context.registry.insert type (.constant override)).constant? found.name =
      some (.object overrides) →
    overrides.keys.Nodup →
    ∃ value : Json.Object,
      (Plan.field field found call inner).treated context (overriding type override) =
        [(field.key, (Json.object value).wrap found.depth)] ∧
      ∀ key ∈ overrides.keys, value.get? key = overrides.get? key
  /-- All spreads of a fragment have one plan, and so they are treated alike. -/
  spreads : ∀ name inner again, .spread name inner ∈ nodesIn parts →
    .spread name again ∈ nodesIn parts → inner = again

theorem overlaidBy_of_plan {schema : TypeSystem} {registry : Registry} {fragments : List Fragment}
    {type : Name} {override : Json} (hr : registry.get? type = none) (ho : override.KeysDiffer)
    {cursor : Name} {set : List Selection} {parts : List Plan}
    (hp : (plan schema fragments cursor set).1 = .ok parts) :
    OverlaidBy ⟨schema, registry, fragments⟩ type override parts
      (treatedInto ⟨schema, registry, fragments⟩ untouched [] parts)
      (treatedInto ⟨schema, registry.insert type (.constant override), fragments⟩ untouched []
        parts) := by
  obtain ⟨-, -, hplaces, hspreads⟩ :=
    @plan_laysOut ⟨schema, registry, fragments⟩ cursor set parts hp
  refine ⟨rfl, treatedInto_insert hr ho [] parts, ?_, ?_, ?_, hspreads⟩
  · intro field found call inner hm
    exact (hplaces field found call inner hm).2
  · intro part _ hother
    refine treated_congr part fun field found call inner hm mock _ => ?_
    rw [overriding, if_neg (hother field found call inner hm), untouched]
  · intro field found call inner overrides _ hk hanswer hnodup
    rw [← treated_insert hr ho]
    exact treated_field_object hk hanswer hnodup

end Walk

/-- **An override is an overlay at the positions of its type and nowhere else.** If a generation
succeeds with a constant for a type, it succeeds without it. The mock with it is the mock without it
in which the values of the fields of the type are overridden. -/
theorem generate_overlaid {request : MockRequest} {registry : Registry} {type : Name}
    {override json : Json} {calls : Calls} (hc : registry.IsConstant)
    (hr : registry.get? type = none) (ho : override.KeysDiffer)
    (h : (request.generate (registry.insert type (.constant override)) calls).1 = .ok json) :
    ∃ operation schema root parts mock after,
      request.start = .ok (operation, schema, root) ∧
      (Walk.plan schema request.document.fragments root operation.selections).1 = .ok parts ∧
      (∀ calls', (request.generate registry calls').1 = .ok (.object mock)) ∧
      json = .object after ∧
      Walk.OverlaidBy ⟨schema, registry, request.document.fragments⟩ type override parts mock
        after := by
  rw [request.generate_ok_iff (hc.insert type override)] at h
  obtain ⟨operation, schema, root, parts, hs, hp, rfl⟩ := h
  refine ⟨operation, schema, root, parts, _, _, hs, hp, fun calls' => ?_, rfl,
    Walk.overlaidBy_of_plan hr ho hp⟩
  exact (request.generate_ok_iff hc calls' _).mpr
    ⟨operation, schema, root, parts, hs, hp, rfl⟩

namespace Walk.Sample

/-- The team of a user and the user who leads it. -/
def leadership : Fragment :=
  ⟨"leadership", "User", [], [field "team" [field "id" [], field "lead" [field "name" []]]]⟩

/-- Users below users, in a fragment that is spread twice. -/
def leadersRequest : MockRequest where
  document := [
    .operation ⟨.query, none, [], [],
      [field "me" [field "name" [], spread "leadership"], field "users" [spread "leadership"]]⟩,
    .fragment leadership]
  acquired := .ok (.built staff)
  rules := []
  operation := none

/-- The leaders with a badge for every user and without their names. -/
def badgedLeaders (badge : Json) : Json :=
  let lead : Json := .object [("name", .null), ("badge", badge)]
  let team : Json := .object [("id", .null), ("lead", lead)]
  .object [
    ("me", .object [("name", .null), ("team", team), ("badge", badge)]),
    ("users", .array [.object [("team", team), ("badge", badge), ("name", .null)]])]

theorem generate_overlaid_leaders :
    let registry := Registry.ofConstants [("Team", .object [("id", .null)])]
    let override : Json := .object [("badge", .string "B7"), ("name", .null)]
    let json := badgedLeaders (.string "B7")
    (leadersRequest.generate (registry.insert "User" (.constant override)) []).1 = .ok json ∧
    ∃ operation schema root parts mock after,
      leadersRequest.start = .ok (operation, schema, root) ∧
      (plan schema leadersRequest.document.fragments root operation.selections).1 = .ok parts ∧
      (∀ calls, (leadersRequest.generate registry calls).1 = .ok (.object mock)) ∧
      json = .object after ∧
      OverlaidBy ⟨schema, registry, leadersRequest.document.fragments⟩ "User" override parts mock
        after := by
  intro registry override json
  have hc : registry.IsConstant := Registry.isConstant_ofConstants _
  have ho : override.KeysDiffer := by
    change ["badge", "name"].Nodup
    decide
  have h : (leadersRequest.generate (registry.insert "User" (.constant override)) []).1 =
      .ok json := rfl
  exact ⟨h, generate_overlaid hc rfl ho h⟩

/-- Moods that nobody can be in. -/
def moods : TypeSystem where
  types := [BuiltIn.object "Query" [BuiltIn.plain "mood" (.named "Mood")],
    BuiltIn.enum "Mood" []] ++ BuiltIn.types
  directives := BuiltIn.directives
  roots := [(.query, "Query")]
  applied := []

def moodRequest : MockRequest where
  document := [.operation ⟨.query, none, [], [], [field "mood" []]⟩]
  acquired := .ok (.built moods)
  rules := []
  operation := none

/-- An enum without members has no value before it is overridden. So the value that it has then is
not the result of a treatment that leaves out what was left out. -/
theorem generate_overlaid_memberless :
    (moodRequest.generate .empty []).1 = .ok (.object []) ∧
    (moodRequest.generate (Registry.empty.insert "Mood" (.constant (.string "GLAD"))) []).1 =
      .ok (.object [("mood", .string "GLAD")]) ∧
    ∃ parts, (plan moods [] "Query" [field "mood" []]).1 = .ok parts ∧
      ∀ treat : Treatment, (∀ found, treat found none = none) →
        treatedInto ⟨moods, .empty, []⟩ treat [] parts = [] := by
  refine ⟨rfl, rfl, [.field ⟨"Query", "mood", "mood", [], []⟩ ⟨"Mood", .enum, 0⟩ 0 []], rfl, ?_⟩
  intro treat hnone
  have hvalue : ∀ mock,
      constantValue ⟨moods, .empty, []⟩ "mood" ⟨"Mood", .enum, 0⟩ mock = none := fun _ => rfl
  simp only [treatedInto, Plan.treated, hvalue, hnone]
  rfl

end Walk.Sample

end MockGraph
