import MockGraph.Proofs.Walk.Calls

/-!
# `Proofs/Walk/Influence`: what resolvers can change

Two generations of one request with different registries fail alike: whether a generation fails, and
why, is settled by its plan. If they succeed, their mocks are the same plan with answers filled in.
So they are equal if the resolvers for the types of the fields that the walk visits go on alike, and
whatever else is registered makes no difference.

Resolvers go on alike if they are the same constant, or generators that yield the same values from
now on. Two types that share a generator in one registry share one in the other.
-/

set_option autoImplicit false

namespace MockGraph

open Syntax

/-! ## 1. Resolvers that go on alike -/

/-- Two resolvers supply the same values after `calls` and after `calls'`. What is generator `id` on
one side is generator `rename id` on the other. -/
inductive Resolver.GoOnAlike (rename : Nat → Nat) (calls calls' : Calls) :
    Resolver → Resolver → Prop where
  | constant (value : Json) : GoOnAlike rename calls calls' (.constant value) (.constant value)
  | generator {id : Nat} {yield yield' : Nat → Json}
    (h : ∀ n, yield (calls.count id + n) = yield' (calls'.count (rename id) + n)) :
    GoOnAlike rename calls calls' (.generator id yield) (.generator (rename id) yield')

/-- Two registries supply the same values for a type, or none. -/
def Registry.GoOnAlike (rename : Nat → Nat) (calls calls' : Calls) (registry registry' : Registry)
    (type : Name) : Prop :=
  Option.Rel (Resolver.GoOnAlike rename calls calls') (registry.get? type) (registry'.get? type)

section GoOnAlike

variable {rename : Nat → Nat} {calls calls' : Calls} {registry registry' : Registry}

/-- They do so after any other call as well, because generators that differ are renamed apart. -/
theorem Resolver.GoOnAlike.cons (hr : Function.Injective rename) {resolver resolver' : Resolver}
    (h : resolver.GoOnAlike rename calls calls' resolver') (called : Nat) :
    resolver.GoOnAlike rename (called :: calls) (rename called :: calls') resolver' := by
  cases h with
  | constant value => exact .constant value
  | @generator id yield yield' h =>
    refine .generator fun n => ?_
    by_cases hid : called = id
    · subst hid
      rw [List.count_cons_self, List.count_cons_self, Nat.add_assoc, Nat.add_assoc]
      exact h (1 + n)
    · have hrenamed : rename called ≠ rename id := fun he => hid (hr he)
      rw [List.count_cons_of_ne hid, List.count_cons_of_ne hrenamed]
      exact h n

theorem Registry.GoOnAlike.cons (hr : Function.Injective rename) {type : Name}
    (h : registry.GoOnAlike rename calls calls' registry' type) (called : Nat) :
    registry.GoOnAlike rename (called :: calls) (rename called :: calls') registry' type := by
  unfold Registry.GoOnAlike at h ⊢
  generalize registry.get? type = found at h ⊢
  generalize registry'.get? type = found' at h ⊢
  cases h with
  | some h => exact .some (h.cons hr called)
  | none => exact .none

/-- Where registries go on alike they give the same answer, and what went on alike still does. -/
theorem Registry.GoOnAlike.call (hr : Function.Injective rename) {type : Name}
    (h : registry.GoOnAlike rename calls calls' registry' type) :
    ((registry.call type).run calls).1 = ((registry'.call type).run calls').1 ∧
    ∀ other, registry.GoOnAlike rename calls calls' registry' other →
      registry.GoOnAlike rename ((registry.call type).run calls).2
        ((registry'.call type).run calls').2 registry' other := by
  unfold Registry.GoOnAlike at h
  unfold Registry.call
  cases hg : registry.get? type with
  | none =>
    rw [hg] at h
    cases hg' : registry'.get? type with
    | some resolver' =>
      rw [hg'] at h
      cases h
    | none => exact ⟨rfl, fun other ho => ho⟩
  | some resolver =>
    rw [hg] at h
    cases hg' : registry'.get? type with
    | none =>
      rw [hg'] at h
      cases h
    | some resolver' =>
      rw [hg'] at h
      cases h with
      | some h =>
        cases h with
        | constant value => exact ⟨rfl, fun other ho => ho⟩
        | @generator id yield yield' h =>
          refine ⟨congrArg some (h 0), fun other ho => ?_⟩
          exact ho.cons hr id

end GoOnAlike

namespace Walk

/-! ## 2. Walks -/

/-- A walk visits a field of this type. -/
def VisitsType (context : Context) (cursor : Name) (set : List Selection) (type : Name) : Prop :=
  ∃ field, innerType? context.schema field = some type ∧
    (field ∈ visitedFields context.schema cursor set ∨
      ∃ name, Reachable context (spreadsIn context.schema cursor set) name ∧
        field ∈ bodyFields context name)

section Answers

variable {schema : TypeSystem} {registry registry' : Registry} {fragments : List Fragment}
  {rename : Nat → Nat}

theorem answersTo_congr (hr : Function.Injective rename) (fields : List Occurrence)
    (calls calls' : Calls)
    (h : ∀ field ∈ fields, ∀ type, innerType? schema field = some type →
      registry.GoOnAlike rename calls calls' registry' type) :
    (answersTo ⟨schema, registry, fragments⟩ fields calls).1 =
      (answersTo ⟨schema, registry', fragments⟩ fields calls').1 := by
  induction fields generalizing calls calls' with
  | nil => rfl
  | cons field rest ih =>
    rw [answersTo_cons, answersTo_cons]
    cases ht : innerType? schema field with
    | none =>
      simp only [answerOf, ht]
      refine congrArg (none :: ·) (ih calls calls' fun other ho => ?_)
      exact h other (List.mem_cons_of_mem _ ho)
    | some type =>
      obtain ⟨hanswer, hon⟩ := (h field List.mem_cons_self type ht).call hr
      simp only [answerOf, ht]
      rw [hanswer]
      refine congrArg (_ :: ·) (ih _ _ fun other ho found hf => ?_)
      exact hon found (h other (List.mem_cons_of_mem _ ho) found hf)

/-- The fields that a successful walk asks are those that it visits. -/
theorem visitsType_of_asked {context : Context} {cursor : Name} {set : List Selection}
    {parts : List Plan} (hp : (plan context.schema context.fragments cursor set).1 = .ok parts)
    {field : Occurrence} (hm : field ∈ (plan context.schema context.fragments cursor set).2)
    {type : Name} (ht : innerType? context.schema field = some type) :
    VisitsType context cursor set type := by
  rw [(plan_laysOut hp).1] at hm
  have hm := (fieldOrder_perm context cursor set).mem_iff.mp hm
  refine ⟨field, ht, ?_⟩
  rcases List.mem_append.mp hm with hm | hm
  · exact .inl hm
  · obtain ⟨name, hn, hm⟩ := List.mem_flatMap.mp hm
    exact .inr ⟨name, ((mem_spreadOrder_iff context cursor set name).mp hn).2, hm⟩

/-- A walk fails with an error exactly if another one with other resolvers does. -/
theorem perform_error_iff (cursor : Name) (set : List Selection) (calls calls' : Calls)
    (error : WalkError) :
    (perform ⟨schema, registry, fragments⟩ cursor set calls).1 = .error error ↔
      (perform ⟨schema, registry', fragments⟩ cursor set calls').1 = .error error := by
  rw [perform_eq_plan, perform_eq_plan]
  cases (plan schema fragments cursor set).1 with
  | error other => exact Iff.rfl
  | ok parts => exact ⟨fun h => (by cases h), fun h => (by cases h)⟩

theorem perform_congr (hr : Function.Injective rename) (cursor : Name) (set : List Selection)
    (calls calls' : Calls)
    (h : ∀ type, VisitsType ⟨schema, registry, fragments⟩ cursor set type →
      registry.GoOnAlike rename calls calls' registry' type) :
    (perform ⟨schema, registry, fragments⟩ cursor set calls).1 =
      (perform ⟨schema, registry', fragments⟩ cursor set calls').1 := by
  rw [perform_eq_plan, perform_eq_plan]
  simp only
  cases hp : (plan schema fragments cursor set).1 with
  | error error => rfl
  | ok parts =>
    refine congrArg (fun values => Except.ok (filled schema values parts)) ?_
    exact answersTo_congr hr _ calls calls' fun field hm type ht =>
      h type (visitsType_of_asked hp hm ht)

end Answers

end Walk

/-! ## 3. Generations -/

theorem walkOperation_error_iff {document : Document} {operation : Operation} {registry : Registry}
    {schema : TypeSystem} {root : Name} {calls : Calls} {failure : Failure} :
    (walkOperation document operation registry schema root calls).1 = .error failure ↔
      ∃ error, (Walk.perform ⟨schema, registry, document.fragments⟩ root operation.selections
        calls).1 = .error error ∧ error.failure = failure := by
  simp only [walkOperation]
  cases (Walk.perform ⟨schema, registry, document.fragments⟩ root operation.selections calls).1 with
  | error error =>
    change Except.error error.failure = Except.error failure ↔ _
    simp
  | ok mock =>
    change Except.ok (Json.object mock) = Except.error failure ↔ _
    simp

/-- **Resolvers change the values of their types and nothing else.** A generation fails whatever the
registry is, or it never does, and always with the same failure. If two registries go on alike for
the types of the visited fields, the results are equal. -/
theorem generate_influence (request : MockRequest) (registry registry' : Registry)
    (calls calls' : Calls) :
    (∀ failure, (request.generate registry calls).1 = .error failure ↔
      (request.generate registry' calls').1 = .error failure) ∧
    ∀ rename : Nat → Nat, Function.Injective rename →
      (∀ operation schema root, request.start = .ok (operation, schema, root) → ∀ type,
        Walk.VisitsType ⟨schema, registry, request.document.fragments⟩ root operation.selections
            type →
          registry.GoOnAlike rename calls calls' registry' type) →
      (request.generate registry calls).1 = (request.generate registry' calls').1 := by
  rw [MockRequest.generate_eq, MockRequest.generate_eq]
  cases hs : request.start with
  | error failure => exact ⟨fun other => Iff.rfl, fun rename hr h => rfl⟩
  | ok start =>
    obtain ⟨operation, schema, root⟩ := start
    refine ⟨fun failure => ?_, fun rename hr h => ?_⟩
    · change (walkOperation ..).1 = _ ↔ (walkOperation ..).1 = _
      rw [walkOperation_error_iff, walkOperation_error_iff]
      refine exists_congr fun error => and_congr_left fun _ => ?_
      exact Walk.perform_error_iff root operation.selections calls calls' error
    · have hresult := Walk.perform_congr hr root operation.selections calls calls'
        (h operation schema root rfl)
      simp only [walkOperation, hresult]

namespace Walk.Sample

/-- The generators of `counters` under other numbers, and a resolver for the root type. -/
def renumbered : Registry :=
  ⟨("Query", .constant .null) :: counters.bindings.map fun binding =>
    (binding.1, match binding.2 with
      | .generator id yield => .generator (id + 10) yield
      | .constant value => .constant value)⟩

theorem visitsType_roster {type : Name}
    (h : VisitsType ⟨staff, counters, [member, teamOf]⟩ "Query" everyone type) :
    type ∈ ["User", "String", "Team", "ID"] := by
  have hstart : ∀ name ∈ spreadsIn staff "Query" everyone, name ∈ ["member", "teamOf"] := by decide
  have hclosed : ∀ name ∈ ["member", "teamOf"],
      ∀ fragment ∈ [member, teamOf].find? (·.name = name),
        ∀ inner ∈ spreadsIn staff fragment.typeCondition fragment.selections,
          inner ∈ ["member", "teamOf"] := by decide
  have hreach : ∀ name, Reachable ⟨staff, counters, [member, teamOf]⟩
      (spreadsIn staff "Query" everyone) name → name ∈ ["member", "teamOf"] := by
    intro name hr
    induction hr with
    | direct hn => exact hstart _ hn
    | through _ hs ih =>
      obtain ⟨fragment, hf, hm⟩ := hs
      exact hclosed _ ih fragment hf _ hm
  have hfields : ∀ field ∈ visitedFields staff "Query" everyone,
      ∀ type ∈ innerType? staff field, type ∈ ["User", "String", "Team", "ID"] := by decide
  have hbodies : ∀ name ∈ ["member", "teamOf"],
      ∀ field ∈ bodyFields ⟨staff, counters, [member, teamOf]⟩ name,
        ∀ type ∈ innerType? staff field, type ∈ ["User", "String", "Team", "ID"] := by decide
  obtain ⟨field, ht, hm | ⟨name, hr, hm⟩⟩ := h
  · exact hfields field hm type ht
  · exact hbodies name (hreach name hr) field hm type ht

/-- Both registries give the roster, whatever was called before under other numbers. -/
theorem generate_influence_roster :
    (rosterRequest.generate counters []).1 = (rosterRequest.generate renumbered [1, 2]).1 := by
  refine (generate_influence rosterRequest counters renumbered [] [1, 2]).2 (· + 10)
    (fun a b h => by simpa using h) ?_
  intro operation schema root hs type hv
  cases hs
  have hm := visitsType_roster hv
  simp only [List.mem_cons, List.not_mem_nil, or_false] at hm
  rcases hm with rfl | rfl | rfl | rfl
  · exact .some (.generator fun n => rfl)
  · exact .none
  · exact .some (.generator fun n => rfl)
  · exact .none

end Walk.Sample

end MockGraph
