import MockGraph.Proofs.Walk.Runs

/-!
# `Proofs/Walk/Expansion`: fragments without a table

A walk notes the object of a fragment and copies it at later spreads. `expandAll` is the walk that
does not: it expands a fragment anew at every spread, and of the past it knows only `stack`, the
names of the fragments that it is in.

Main statement, `perform_eq_expandAll`: with constant resolvers both give the same object or fail
with the same error, whatever the fragments of the document are. A copy is right at a spread with
another stack than the first one had because of an invariant, `Faithful`: a fragment that is
finished spreads finished fragments only, so its expansion is the same on every stack without
finished fragments. And those that are started are at every moment the ones on the stack.
-/

set_option autoImplicit false

namespace MockGraph

open Syntax

/-! ## 1. Constant resolvers -/

/-- The constant that a registry has for a type. -/
def Registry.constant? (registry : Registry) (type : Name) : Option Json :=
  match registry.get? type with
  | some (.constant value) => some value
  | _ => none

/-- Every resolver is a constant. -/
def Registry.IsConstant (registry : Registry) : Prop :=
  ∀ type resolver, registry.get? type = some resolver → ∃ value, resolver = .constant value

theorem Registry.IsConstant.run_call {registry : Registry} (h : registry.IsConstant) (type : Name)
    (calls : Calls) : (registry.call type).run calls = (registry.constant? type, calls) := by
  unfold Registry.call Registry.constant?
  cases hr : registry.get? type with
  | none => rfl
  | some resolver =>
    obtain ⟨value, rfl⟩ := h type resolver hr
    rfl

theorem Registry.isConstant_empty : Registry.empty.IsConstant := by
  intro type resolver hr
  cases hr

theorem Registry.IsConstant.insert {registry : Registry} (h : registry.IsConstant) (name : Name)
    (value : Json) : (registry.insert name (.constant value)).IsConstant := by
  intro type resolver hr
  by_cases hn : type = name
  · rw [hn, get?_insert_self] at hr
    cases hr
    exact ⟨value, rfl⟩
  · rw [get?_insert_of_ne registry _ hn] at hr
    exact h type resolver hr

theorem Registry.isConstant_ofConstants (constants : Json.Object) :
    (Registry.ofConstants constants).IsConstant := by
  have hfold : ∀ registry : Registry, registry.IsConstant →
      (registry.insertConstants constants).IsConstant := by
    induction constants with
    | nil => exact fun registry h => h
    | cons member rest ih => exact fun registry h => ih _ (h.insert member.1 member.2)
  exact hfold _ isConstant_empty

namespace Walk

theorem outcome_resolve_constant {context : Context} (h : context.registry.IsConstant) (type : Name)
    (state : State) :
    outcome (resolve context type) state = (.ok (context.registry.constant? type), state) := by
  rw [outcome_resolve, h.run_call]

/-! ## 2. The walk without a table -/

mutual

/-- What a selection on the type `cursor` contributes, where `expand` gives the object of a
fragment. -/
def expandOne (context : Context) (expand : Name → Except WalkError Json.Object) (cursor : Name) :
    Selection → Except WalkError Json.Object
  | .field alias? name _ _ nested =>
    if name = "__typename" then .ok [(alias?.getD name, .string cursor)]
    else
      match target context.schema cursor name with
      | .error mismatch => .error (.mismatch mismatch)
      | .ok found =>
        if found.kind = .inputObject then .error (.mismatch (.invalidType found.name found.kind))
        else if found.kind.isComposite then
          (expandAll context expand found.name [] nested).map fun mock =>
            fieldMembers (alias?.getD name) found.depth
              (some (overlay mock (context.registry.constant? found.name)))
        else
          .ok (fieldMembers (alias?.getD name) found.depth
            ((context.registry.constant? found.name).or
              (leafSample context.schema found.kind found.name name)))
  | .spread name _ => expand name
  | .inline condition _ nested => expandAll context expand (condition.getD cursor) [] nested

/-- Merges what selections on the type `cursor` contribute into `mock`. -/
def expandAll (context : Context) (expand : Name → Except WalkError Json.Object) (cursor : Name)
    (mock : Json.Object) : List Selection → Except WalkError Json.Object
  | [] => .ok mock
  | selection :: rest =>
    (expandOne context expand cursor selection).bind fun members =>
      expandAll context expand cursor (mock.merge members) rest

end

/-- The fragments that are not on a stack. -/
def offStack (context : Context) (stack : List Name) : List Fragment :=
  context.fragments.filter fun fragment => fragment.name ∉ stack

theorem length_offStack_cons_lt {context : Context} {stack : List Name} {name : Name}
    {fragment : Fragment} (hf : context.fragment? name = some fragment) (hn : name ∉ stack) :
    (offStack context (name :: stack)).length < (offStack context stack).length := by
  have hname : fragment.name = name := by simpa using List.find?_some hf
  have hsplit : offStack context (name :: stack) =
      (offStack context stack).filter fun other => other.name ≠ name := by
    simp only [offStack, List.filter_filter, List.mem_cons, not_or, ← Bool.decide_and]
  rw [hsplit]
  refine List.length_filter_lt_length_iff_exists.mpr ⟨fragment, ?_, by simp [hname]⟩
  exact List.mem_filter.mpr ⟨List.mem_of_find?_eq_some hf, by simp [hname, hn]⟩

/-- The object of a fragment, expanded where those on `stack` are being expanded. -/
def expandFragment (context : Context) (stack : List Name) (name : Name) :
    Except WalkError Json.Object :=
  match _hf : context.fragment? name with
  | none => .error (.unknownFragment name)
  | some fragment =>
    if _hn : name ∈ stack then .error (.cyclicFragment name)
    else
      expandAll context (fun inner => expandFragment context (name :: stack) inner)
        fragment.typeCondition [] fragment.selections
termination_by (offStack context stack).length
decreasing_by exact length_offStack_cons_lt _hf _hn

section Fragment

variable {context : Context} {stack : List Name} {name : Name} {fragment : Fragment}

theorem expandFragment_none (hf : context.fragment? name = none) :
    expandFragment context stack name = .error (.unknownFragment name) := by
  rw [expandFragment]
  split
  · rfl
  · simp_all

theorem expandFragment_mem (hf : context.fragment? name = some fragment) (hn : name ∈ stack) :
    expandFragment context stack name = .error (.cyclicFragment name) := by
  rw [expandFragment]
  split
  · simp_all
  · rw [dif_pos hn]

theorem expandFragment_not_mem (hf : context.fragment? name = some fragment) (hn : name ∉ stack) :
    expandFragment context stack name =
      expandAll context (expandFragment context (name :: stack)) fragment.typeCondition []
        fragment.selections := by
  rw [expandFragment]
  split
  · simp_all
  · next found hf' =>
    cases hf.symm.trans hf'
    rw [dif_neg hn]

end Fragment

section Equations

variable {context : Context} {expand : Name → Except WalkError Json.Object} {cursor name : Name}
  {alias? : Option Name} {arguments : List Argument} {directives : List Directive}
  {nested : List Selection} {found : Target}

theorem expandOne_typename (hn : name = "__typename") :
    expandOne context expand cursor (.field alias? name arguments directives nested) =
      .ok [(alias?.getD name, .string cursor)] := by
  rw [expandOne, if_pos hn]

theorem expandOne_composite (hn : name ≠ "__typename")
    (ht : target context.schema cursor name = .ok found) (hk : found.kind.isComposite = true) :
    expandOne context expand cursor (.field alias? name arguments directives nested) =
      (expandAll context expand found.name [] nested).map fun mock =>
        fieldMembers (alias?.getD name) found.depth
          (some (overlay mock (context.registry.constant? found.name))) := by
  simp only [expandOne, if_neg hn, ht, if_neg (TypeKind.ne_inputObject hk), if_pos hk]

theorem expandOne_leaf (hn : name ≠ "__typename")
    (ht : target context.schema cursor name = .ok found) (hk : found.kind.isComposite = false)
    (hi : found.kind ≠ .inputObject) :
    expandOne context expand cursor (.field alias? name arguments directives nested) =
      .ok (fieldMembers (alias?.getD name) found.depth
        ((context.registry.constant? found.name).or
          (leafSample context.schema found.kind found.name name))) := by
  simp [expandOne, hn, ht, hk, hi]

/-- Where a field is expanded, it is `__typename` or found, and values of its type can be made. -/
theorem expandOne_ok {members : Json.Object}
    (h : expandOne context expand cursor (.field alias? name arguments directives nested) =
      .ok members) :
    name = "__typename" ∨ name ≠ "__typename" ∧
      ∃ found, target context.schema cursor name = .ok found ∧ found.kind ≠ .inputObject := by
  by_cases hn : name = "__typename"
  · exact .inl hn
  rw [expandOne, if_neg hn] at h
  cases ht : target context.schema cursor name with
  | error mismatch =>
    rw [ht] at h
    cases h
  | ok found =>
    refine .inr ⟨hn, found, rfl, fun hi => ?_⟩
    rw [ht] at h
    simp only [if_pos hi] at h
    cases h

theorem expandOne_composite_ok {members : Json.Object} (hn : name ≠ "__typename")
    (ht : target context.schema cursor name = .ok found) (hk : found.kind.isComposite = true)
    (h : expandOne context expand cursor (.field alias? name arguments directives nested) =
      .ok members) :
    ∃ inner, expandAll context expand found.name [] nested = .ok inner ∧
      members = fieldMembers (alias?.getD name) found.depth
        (some (overlay inner (context.registry.constant? found.name))) := by
  rw [expandOne_composite hn ht hk] at h
  cases hnested : expandAll context expand found.name [] nested with
  | error error =>
    rw [hnested] at h
    cases h
  | ok inner =>
    rw [hnested] at h
    cases h
    exact ⟨inner, rfl, rfl⟩

theorem expandAll_cons_ok {mock after : Json.Object} {selection : Selection}
    {rest : List Selection}
    (h : expandAll context expand cursor mock (selection :: rest) = .ok after) :
    ∃ members, expandOne context expand cursor selection = .ok members ∧
      expandAll context expand cursor (mock.merge members) rest = .ok after := by
  rw [expandAll] at h
  cases hone : expandOne context expand cursor selection with
  | error error =>
    rw [hone] at h
    cases h
  | ok members =>
    rw [hone] at h
    exact ⟨members, rfl, h⟩

end Equations

section Mono

variable {context : Context} {expand expand' : Name → Except WalkError Json.Object}

mutual

/-- A selection that is expanded stays as it is if more fragments can be. -/
theorem expandOne_mono (he : ∀ name mock, expand name = .ok mock → expand' name = .ok mock)
    {cursor : Name} {mock : Json.Object} :
    ∀ selection, expandOne context expand cursor selection = .ok mock →
      expandOne context expand' cursor selection = .ok mock
  | .field alias? name arguments directives nested, h => by
    rcases expandOne_ok h with hn | ⟨hn, found, ht, hi⟩
    · rwa [expandOne_typename hn] at h ⊢
    cases hk : found.kind.isComposite with
    | false => rwa [expandOne_leaf hn ht hk hi] at h ⊢
    | true =>
      obtain ⟨inner, hnested, rfl⟩ := expandOne_composite_ok hn ht hk h
      rw [expandOne_composite hn ht hk, expandAll_mono he nested hnested]
      rfl
  | .spread name directives, h => he name mock h
  | .inline condition directives nested, h => expandAll_mono he nested h

theorem expandAll_mono (he : ∀ name mock, expand name = .ok mock → expand' name = .ok mock)
    {cursor : Name} {mock after : Json.Object} :
    ∀ set, expandAll context expand cursor mock set = .ok after →
      expandAll context expand' cursor mock set = .ok after
  | [], h => h
  | selection :: rest, h => by
    obtain ⟨members, hone, hrest⟩ := expandAll_cons_ok h
    rw [expandAll, expandOne_mono he selection hone]
    exact expandAll_mono he rest hrest

end

theorem expandFragment_ok {stack : List Name} {name : Name} {mock : Json.Object}
    (h : expandFragment context stack name = .ok mock) :
    ∃ fragment, context.fragment? name = some fragment ∧ name ∉ stack ∧
      expandAll context (expandFragment context (name :: stack)) fragment.typeCondition []
        fragment.selections = .ok mock := by
  cases hf : context.fragment? name with
  | none =>
    rw [expandFragment_none hf] at h
    cases h
  | some fragment =>
    by_cases hn : name ∈ stack
    · rw [expandFragment_mem hf hn] at h
      cases h
    · exact ⟨fragment, rfl, hn, by rwa [← expandFragment_not_mem hf hn]⟩

/-- The object of a fragment is the same on every smaller stack. -/
theorem expandFragment_mono {stack smaller : List Name} {name : Name} {mock : Json.Object}
    (hs : ∀ name ∈ smaller, name ∈ stack) (h : expandFragment context stack name = .ok mock) :
    expandFragment context smaller name = .ok mock := by
  obtain ⟨fragment, hf, hn, hall⟩ := expandFragment_ok h
  rw [expandFragment_not_mem hf fun hm => hn (hs name hm)]
  refine expandAll_mono (fun inner found hi => ?_) _ hall
  refine expandFragment_mono (fun other ho => ?_) hi
  rcases List.mem_cons.mp ho with rfl | ho
  · exact List.mem_cons_self
  · exact List.mem_cons_of_mem _ (hs other ho)
termination_by (offStack context stack).length
decreasing_by exact length_offStack_cons_lt hf hn

end Mono

/-- What a task gives without a table. -/
def Task.expand (context : Context) (stack : List Name) : Task → Except WalkError Json.Object
  | .one cursor selection => expandOne context (expandFragment context stack) cursor selection
  | .many cursor mock set => expandAll context (expandFragment context stack) cursor mock set
  | .spread name => expandFragment context stack name

/-! ## 3. Both walks agree -/

/-- Nothing on a stack is finished. -/
def Apart (stack : List Name) (state : State) : Prop :=
  ∀ name ∈ stack, ∀ mock, state.progress? name ≠ some (.finished mock)

/-- A stack holds the fragments that are started. -/
def IsStack (stack : List Name) (state : State) : Prop :=
  ∀ name, name ∈ stack ↔ state.progress? name = some .started

/-- What is noted as the object of a fragment is what its expansion gives, on every stack on which
nothing is finished. -/
def Faithful (context : Context) (state : State) : Prop :=
  ∀ name mock, state.progress? name = some (.finished mock) →
    ∀ stack, Apart stack state → expandFragment context stack name = .ok mock

theorem IsStack.apart {stack : List Name} {state : State} (h : IsStack stack state) :
    Apart stack state := by
  intro name hn mock hm
  rw [(h name).mp hn] at hm
  cases hm

theorem Apart.before {context : Context} {task : Task} {state after : State}
    {result : Except WalkError Json.Object} {stack : List Name} (h : Apart stack after)
    (hw : Runs context task state result after) : Apart stack state :=
  fun name hn mock hm => h name hn mock (hw.keeps_finished hm)

theorem IsStack.after {context : Context} {task : Task} {state after : State} {mock : Json.Object}
    {stack : List Name} (h : IsStack stack state) (hw : Runs context task state (.ok mock) after) :
    IsStack stack after :=
  fun name => (h name).trans (hw.started_iff rfl name).symm

theorem IsStack.push {state : State} {stack : List Name} {name : Name} (h : IsStack stack state) :
    IsStack (name :: stack) (state.noted name .started) := by
  intro other
  rw [progress?_noted, List.mem_cons, h other]
  by_cases hn : name = other
  · simp [hn]
  · simp [hn, Ne.symm hn]

theorem Apart.of_finished {state : State} {stack : List Name} {name : Name} {mock : Json.Object}
    (h : Apart stack (state.noted name (.finished mock))) : name ∉ stack ∧ Apart stack state := by
  have hn : name ∉ stack := fun hm => h name hm mock (by simp [progress?_noted])
  refine ⟨hn, fun other hm found hf => h other hm found ?_⟩
  rwa [progress?_noted, if_neg fun e : name = other => hn (e ▸ hm)]

/-- A fragment that is started has nothing noted that could be wrong. -/
theorem Faithful.start {context : Context} {state : State} {name : Name}
    (h : Faithful context state) (hp : state.progress? name = none) :
    Faithful context (state.noted name .started) := by
  intro other mock hf stack ha
  rw [progress?_noted] at hf
  split at hf
  · cases hf
  refine h other mock hf stack fun inner hm found hi => ha inner hm found ?_
  rwa [progress?_noted, if_neg fun e : name = inner => by simp [← e, hp] at hi]

/-- The object of a fragment may be noted if it is what the expansion gives. -/
theorem Faithful.finish {context : Context} {state : State} {name : Name} {mock : Json.Object}
    (h : Faithful context state)
    (he : ∀ stack, Apart stack (state.noted name (.finished mock)) →
      expandFragment context stack name = .ok mock) :
    Faithful context (state.noted name (.finished mock)) := by
  intro other found hf stack ha
  rw [progress?_noted] at hf
  split at hf
  · next hn =>
    cases hf
    exact hn ▸ he stack ha
  · exact h other found hf stack ha.of_finished.2

/-- What a walk from a faithful state gives is what the expansion gives: an object on every stack on
which nothing is finished afterwards, an error on the stack of the walk. -/
def Expands (context : Context) (task : Task) (state : State) (after : State) :
    Except WalkError Json.Object → Prop
  | .ok mock => Faithful context after ∧
      ∀ stack, Apart stack after → task.expand context stack = .ok mock
  | .error error => ∀ stack, IsStack stack state → task.expand context stack = .error error

theorem Runs.expands {context : Context} (hc : context.registry.IsConstant) {task : Task}
    {state after : State} {result : Except WalkError Json.Object}
    (h : Runs context task state result after) (hi : Faithful context state) :
    Expands context task state after result := by
  induction h with
  | typename hn => exact ⟨hi, fun stack _ => by simp [Task.expand, expandOne, hn]⟩
  | lookupFails hn ht => exact fun stack _ => by simp [Task.expand, expandOne, hn, ht]
  | leaf hn ht hk hne hr =>
    rw [outcome_resolve_constant hc] at hr
    cases hr
    exact ⟨hi, fun stack _ => by simp [Task.expand, expandOne, hn, ht, hk, hne]⟩
  | composite hn ht hk hw hr ih =>
    rw [outcome_resolve_constant hc] at hr
    cases hr
    obtain ⟨hf, he⟩ := ih hi
    refine ⟨hf, fun stack ha => ?_⟩
    have he := he stack ha
    simp_all [Task.expand, expandOne, TypeKind.ne_inputObject hk, Except.map]
  | compositeFails hn ht hk hw ih =>
    intro stack hs
    have he := ih hi stack hs
    simp_all [Task.expand, expandOne, TypeKind.ne_inputObject hk, Except.map]
  | input hn ht hk => exact fun stack _ => by simp [Task.expand, expandOne, hn, ht, hk]
  | fragment hw ih => exact ih hi
  | inline hw ih => exact ih hi
  | nil => exact ⟨hi, fun stack _ => rfl⟩
  | @cons _ _ _ _ _ members between result after hw hs ihw ihs =>
    obtain ⟨hf, he⟩ := ihw hi
    have ihs := ihs hf
    cases result with
    | ok mock =>
      refine ⟨ihs.1, fun stack ha => ?_⟩
      have he := he stack (ha.before hs)
      have hes := ihs.2 stack ha
      simp_all [Task.expand, expandAll, Except.bind]
    | error error =>
      -- What is on the stack of the walk is apart, so what came before is expanded on it as well.
      intro stack hst
      have hst' := hst.after hw
      have he := he stack hst'.apart
      have hes := ihs stack hst'
      simp_all [Task.expand, expandAll, Except.bind]
  | consFails hw ih =>
    intro stack hs
    have he := ih hi stack hs
    simp_all [Task.expand, expandAll, Except.bind]
  | unknown hf => exact fun stack _ => expandFragment_none hf
  | again hf hp =>
    -- The copy is right on this stack because the object was noted for every stack.
    exact ⟨hi, fun stack ha => hi _ _ hp stack ha⟩
  | cyclic hf hp => exact fun stack hs => expandFragment_mem hf ((hs _).mpr hp)
  | @first name state fragment mock after hf hp hw ih =>
    obtain ⟨hfa, he⟩ := ih (hi.start hp)
    have hstarted : after.progress? name = some .started :=
      (hw.started_iff rfl name).mpr (by simp [progress?_noted])
    -- Where the fragment is finished it is not on the stack, so it can be pushed there.
    have key : ∀ stack, Apart stack (after.noted name (.finished mock)) →
        expandFragment context stack name = .ok mock := by
      intro stack ha
      obtain ⟨hn, ha⟩ := ha.of_finished
      rw [expandFragment_not_mem hf hn]
      refine he (name :: stack) fun other hm found => ?_
      rcases List.mem_cons.mp hm with rfl | hm
      · simp [hstarted]
      · exact ha other hm found
    exact ⟨hfa.finish key, key⟩
  | @firstFails name state fragment error after hf hp hw ih =>
    intro stack hs
    have hn : name ∉ stack := fun hm => by simp [(hs name).mp hm] at hp
    have he := ih (hi.start hp) (name :: stack) hs.push
    exact (expandFragment_not_mem hf hn).trans he

/-- A walk with constant resolvers calls no generator. -/
theorem Runs.calls_eq {context : Context} (hc : context.registry.IsConstant) {task : Task}
    {state after : State} {result : Except WalkError Json.Object}
    (h : Runs context task state result after) : after.calls = state.calls := by
  induction h with
  | typename | lookupFails | input | nil | unknown | again | cyclic => rfl
  | leaf _ _ _ _ hr =>
    rw [outcome_resolve_constant hc] at hr
    cases hr
    rfl
  | composite _ _ _ _ hr ih =>
    rw [outcome_resolve_constant hc] at hr
    cases hr
    exact ih
  | compositeFails _ _ _ _ ih | fragment _ ih | inline _ ih | consFails _ ih => exact ih
  | cons _ _ ihw ihs => exact ihs.trans ihw
  | first _ _ _ ih | firstFails _ _ _ ih => exact ih

theorem Runs.eq_expandAll {context : Context} (hc : context.registry.IsConstant) {cursor : Name}
    {set : List Selection} {calls : Calls} {after : State} {result : Except WalkError Json.Object}
    (h : Runs context (.many cursor [] set) ⟨[], calls⟩ result after) :
    expandAll context (expandFragment context []) cursor [] set = result := by
  have hnone : ∀ name, (State.mk [] calls).progress? name = none := fun _ => rfl
  have he := h.expands hc fun name mock hf => by simp [hnone] at hf
  cases result with
  | ok mock => exact he.2 [] (by simp [Apart])
  | error error => exact he [] fun name => by simp [hnone]

/-- **The table changes nothing.** With constant resolvers a walk gives what the walk without a
table gives, the same object or the same error, and calls no generator. -/
theorem perform_eq_expandAll (context : Context) (hc : context.registry.IsConstant) (cursor : Name)
    (set : List Selection) (calls : Calls) :
    perform context cursor set calls =
      (expandAll context (expandFragment context []) cursor [] set, calls) := by
  obtain ⟨after, hw, hcalls⟩ := runs_perform context cursor set calls
  have hresult := hw.eq_expandAll hc
  have hlog := hcalls.symm.trans (hw.calls_eq hc)
  exact Prod.ext hresult.symm hlog

/-- One fragment is spread three times: in another one and at two places of the operation. -/
theorem perform_eq_expandAll_staff :
    (Registry.ofConstants [("Team", .object [("id", .null)])]).IsConstant ∧
    perform
        ⟨Sample.staff, .ofConstants [("Team", .object [("id", .null)])],
          [Sample.member, Sample.teamOf]⟩
        "Query" Sample.everyone [] =
      (expandAll
        ⟨Sample.staff, .ofConstants [("Team", .object [("id", .null)])],
          [Sample.member, Sample.teamOf]⟩
        (expandFragment
          ⟨Sample.staff, .ofConstants [("Team", .object [("id", .null)])],
            [Sample.member, Sample.teamOf]⟩ [])
        "Query" [] Sample.everyone, []) :=
  ⟨Registry.isConstant_ofConstants _,
    perform_eq_expandAll _ (Registry.isConstant_ofConstants _) _ _ _⟩

end Walk

end MockGraph
