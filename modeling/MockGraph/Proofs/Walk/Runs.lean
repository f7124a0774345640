import MockGraph.Mock.Walk
import MockGraph.TypeSystem.BuiltIn

/-!
# `Proofs/Walk/Runs`: a walk as a derivation

`Runs context task state result state'` says that a walk which is asked for `task` in `state` ends
in `state'` with `result`. Its rules say what a walk does, one rule for each case, and no rule
counts how deep fragments are spread inside each other. A derivation is finite, so whatever has one
comes to an end.

Main statement, `runs_iff_outcome`: every task has exactly one derivation, and the walk computes its
result. The bound on the depth of spreads in `spreadAt` is therefore never what ends a walk: a
fragment that is walked is noted as `started`, and there are only so many that are not.
-/

set_option autoImplicit false

namespace MockGraph

open Syntax

/-- Whether fields can be selected on the types of a kind. -/
def TypeKind.isComposite : TypeKind → Bool
  | .object | .interface | .union => true
  | _ => false

@[simp] theorem TypeKind.isComposite_inputObject : TypeKind.inputObject.isComposite = false := rfl

theorem TypeKind.ne_inputObject {kind : TypeKind} (h : kind.isComposite = true) :
    kind ≠ .inputObject := by
  rintro rfl
  cases h

namespace Walk

/-! ## 1. Outcomes -/

/-- What a computation of a walk gives in a state, and the state after it. -/
def outcome {α : Type} (walk : Walk α) (state : State) : Except WalkError α × State :=
  StateT.run (ExceptT.run walk) state

section Outcome

variable {α β : Type} (state : State)

@[simp] theorem outcome_pure (a : α) : outcome (pure a) state = (.ok a, state) := rfl

@[simp] theorem outcome_throw (error : WalkError) :
    outcome (throw error : Walk α) state = (.error error, state) := rfl

@[simp] theorem outcome_get : outcome get state = (.ok state, state) := rfl

theorem outcome_bind (walk : Walk α) (next : α → Walk β) :
    outcome (walk >>= next) state =
      match outcome walk state with
      | (.ok a, after) => outcome (next a) after
      | (.error error, after) => (.error error, after) := by
  have hb : outcome (walk >>= next) state =
      ExceptT.bindCont next (outcome walk state).1 (outcome walk state).2 := rfl
  rw [hb]
  rcases outcome walk state with ⟨_ | a, after⟩
  · rfl
  · rfl

@[simp] theorem outcome_require (found : Except Mismatch α) :
    outcome (require found) state = (found.mapError .mismatch, state) := by
  cases found <;> rfl

end Outcome

/-- The state in which the progress of a fragment is noted. -/
def State.noted (state : State) (name : Name) (progress : Progress) : State :=
  { state with progress := (name, progress) :: state.progress }

@[simp] theorem outcome_note (state : State) (name : Name) (progress : Progress) :
    outcome (note name progress) state = (.ok (), state.noted name progress) := rfl

theorem progress?_noted (state : State) (name other : Name) (progress : Progress) :
    (state.noted name progress).progress? other =
      if name = other then some progress else state.progress? other := by
  by_cases h : name = other
  · simp [State.noted, State.progress?, h]
  · simp [State.noted, State.progress?, h]

theorem outcome_resolve (context : Context) (type : Name) (state : State) :
    outcome (resolve context type) state =
      (.ok ((context.registry.call type).run state.calls).1,
        { state with calls := ((context.registry.call type).run state.calls).2 }) := rfl

section Field

variable {context : Context} {field : Name} {found : Target} {walk : Walk Json.Object}
  {state between after : State} {mock : Json.Object} {value? : Option Json}

theorem outcome_fieldValue_leaf (hk : found.kind.isComposite = false)
    (hi : found.kind ≠ .inputObject)
    (hr : outcome (resolve context found.name) state = (.ok value?, after)) :
    outcome (fieldValue context field found walk) state =
      (.ok (value?.or (leafSample context.schema found.kind found.name field)), after) := by
  obtain ⟨type, kind, depth⟩ := found
  cases kind <;> simp_all [TypeKind.isComposite, fieldValue, outcome_bind] <;>
    cases value? <;> rfl

theorem outcome_fieldValue_composite (hk : found.kind.isComposite = true)
    (hw : outcome walk state = (.ok mock, between))
    (hr : outcome (resolve context found.name) between = (.ok value?, after)) :
    outcome (fieldValue context field found walk) state =
      (.ok (some (overlay mock value?)), after) := by
  obtain ⟨type, kind, depth⟩ := found
  cases kind <;> simp_all [TypeKind.isComposite, fieldValue, outcome_bind, -bind_pure_comp]

theorem outcome_fieldValue_fails {error : WalkError} (hk : found.kind.isComposite = true)
    (hw : outcome walk state = (.error error, after)) :
    outcome (fieldValue context field found walk) state = (.error error, after) := by
  obtain ⟨type, kind, depth⟩ := found
  cases kind <;> simp_all [TypeKind.isComposite, fieldValue, outcome_bind]

theorem outcome_fieldValue_input (hk : found.kind = .inputObject) :
    outcome (fieldValue context field found walk) state =
      (.error (.mismatch (.invalidType found.name found.kind)), state) := by
  obtain ⟨type, kind, depth⟩ := found
  subst hk
  rfl

end Field

/-! ## 2. Derivations -/

/-- What a walk can be asked for. -/
inductive Task where
  /-- What a selection on the type `cursor` contributes. -/
  | one (cursor : Name) (selection : Selection)
  /-- What selections on the type `cursor` contribute, merged into `mock`. -/
  | many (cursor : Name) (mock : Json.Object) (set : List Selection)
  /-- The object of a fragment where it is spread. -/
  | spread (name : Name)

/-- The derivations of walks. A rule whose name ends in `Fails` passes on the error of the part of
the task that it names. -/
inductive Runs (context : Context) :
    Task → State → Except WalkError Json.Object → State → Prop where
  | typename {cursor name alias? arguments directives nested state} (hn : name = "__typename") :
    Runs context (.one cursor (.field alias? name arguments directives nested)) state
      (.ok [(alias?.getD name, .string cursor)]) state
  | lookupFails {cursor name alias? arguments directives nested state mismatch}
    (hn : name ≠ "__typename") (ht : target context.schema cursor name = .error mismatch) :
    Runs context (.one cursor (.field alias? name arguments directives nested)) state
      (.error (.mismatch mismatch)) state
  | leaf {cursor name alias? arguments directives nested state found value? after}
    (hn : name ≠ "__typename") (ht : target context.schema cursor name = .ok found)
    (hk : found.kind.isComposite = false) (hi : found.kind ≠ .inputObject)
    (hr : outcome (resolve context found.name) state = (.ok value?, after)) :
    Runs context (.one cursor (.field alias? name arguments directives nested)) state
      (.ok (fieldMembers (alias?.getD name) found.depth
        (value?.or (leafSample context.schema found.kind found.name name)))) after
  | composite {cursor name alias? arguments directives nested state found mock between value? after}
    (hn : name ≠ "__typename") (ht : target context.schema cursor name = .ok found)
    (hk : found.kind.isComposite = true)
    (hw : Runs context (.many found.name [] nested) state (.ok mock) between)
    (hr : outcome (resolve context found.name) between = (.ok value?, after)) :
    Runs context (.one cursor (.field alias? name arguments directives nested)) state
      (.ok (fieldMembers (alias?.getD name) found.depth (some (overlay mock value?)))) after
  | compositeFails {cursor name alias? arguments directives nested state found error after}
    (hn : name ≠ "__typename") (ht : target context.schema cursor name = .ok found)
    (hk : found.kind.isComposite = true)
    (hw : Runs context (.many found.name [] nested) state (.error error) after) :
    Runs context (.one cursor (.field alias? name arguments directives nested)) state
      (.error error) after
  | input {cursor name alias? arguments directives nested state found}
    (hn : name ≠ "__typename") (ht : target context.schema cursor name = .ok found)
    (hk : found.kind = .inputObject) :
    Runs context (.one cursor (.field alias? name arguments directives nested)) state
      (.error (.mismatch (.invalidType found.name found.kind))) state
  | fragment {cursor name directives state result after}
    (hw : Runs context (.spread name) state result after) :
    Runs context (.one cursor (.spread name directives)) state result after
  | inline {cursor condition directives nested state result after}
    (hw : Runs context (.many (condition.getD cursor) [] nested) state result after) :
    Runs context (.one cursor (.inline condition directives nested)) state result after
  | nil {cursor mock state} : Runs context (.many cursor mock []) state (.ok mock) state
  | cons {cursor mock selection rest state members between result after}
    (hw : Runs context (.one cursor selection) state (.ok members) between)
    (hs : Runs context (.many cursor (mock.merge members) rest) between result after) :
    Runs context (.many cursor mock (selection :: rest)) state result after
  | consFails {cursor mock selection rest state error after}
    (hw : Runs context (.one cursor selection) state (.error error) after) :
    Runs context (.many cursor mock (selection :: rest)) state (.error error) after
  | unknown {name state} (hf : context.fragment? name = none) :
    Runs context (.spread name) state (.error (.unknownFragment name)) state
  | again {name state fragment mock} (hf : context.fragment? name = some fragment)
    (hp : state.progress? name = some (.finished mock)) :
    Runs context (.spread name) state (.ok mock) state
  | cyclic {name state fragment} (hf : context.fragment? name = some fragment)
    (hp : state.progress? name = some .started) :
    Runs context (.spread name) state (.error (.cyclicFragment name)) state
  | first {name state fragment mock after} (hf : context.fragment? name = some fragment)
    (hp : state.progress? name = none)
    (hw : Runs context (.many fragment.typeCondition [] fragment.selections)
      (state.noted name .started) (.ok mock) after) :
    Runs context (.spread name) state (.ok mock) (after.noted name (.finished mock))
  | firstFails {name state fragment error after} (hf : context.fragment? name = some fragment)
    (hp : state.progress? name = none)
    (hw : Runs context (.many fragment.typeCondition [] fragment.selections)
      (state.noted name .started) (.error error) after) :
    Runs context (.spread name) state (.error error) after

/-- A task has one result. -/
theorem Runs.unique {context : Context} {task : Task} {state after after' : State}
    {result result' : Except WalkError Json.Object} (h : Runs context task state result after)
    (h' : Runs context task state result' after') : result = result' ∧ after = after' := by
  -- Two rules for one task differ in a look-up, or in the result of a part of the task.
  induction h generalizing result' after' with
  | typename hn => cases h' <;> simp_all
  | lookupFails hn ht => cases h' <;> simp_all
  | leaf hn ht hk hi hr => cases h' <;> simp_all
  | composite hn ht hk hw hr ih =>
    cases h' with
    | composite hn' ht' hk' hw' hr' =>
      cases ht.symm.trans ht'
      obtain ⟨h, rfl⟩ := ih hw'
      cases h
      cases hr.symm.trans hr'
      exact ⟨rfl, rfl⟩
    | compositeFails hn' ht' hk' hw' =>
      cases ht.symm.trans ht'
      exact absurd (ih hw').1 (by simp)
    | _ => simp_all
  | compositeFails hn ht hk hw ih =>
    cases h' with
    | composite hn' ht' hk' hw' hr' =>
      cases ht.symm.trans ht'
      exact absurd (ih hw').1 (by simp)
    | compositeFails hn' ht' hk' hw' =>
      cases ht.symm.trans ht'
      exact ih hw'
    | _ => simp_all
  | input hn ht hk => cases h' <;> simp_all
  | fragment hw ih => cases h' with | fragment hw' => exact ih hw'
  | inline hw ih => cases h' with | inline hw' => exact ih hw'
  | nil => cases h'; exact ⟨rfl, rfl⟩
  | cons hw hs ihw ihs =>
    cases h' with
    | cons hw' hs' =>
      obtain ⟨h, rfl⟩ := ihw hw'
      cases h
      exact ihs hs'
    | consFails hw' => exact absurd (ihw hw').1 (by simp)
  | consFails hw ih =>
    cases h' with
    | cons hw' hs' => exact absurd (ih hw').1 (by simp)
    | consFails hw' => exact ih hw'
  | unknown hf => cases h' <;> simp_all
  | again hf hp => cases h' <;> simp_all
  | cyclic hf hp => cases h' <;> simp_all
  | first hf hp hw ih =>
    cases h' with
    | first hf' hp' hw' =>
      cases hf.symm.trans hf'
      obtain ⟨h, rfl⟩ := ih hw'
      cases h
      exact ⟨rfl, rfl⟩
    | firstFails hf' hp' hw' =>
      cases hf.symm.trans hf'
      exact absurd (ih hw').1 (by simp)
    | _ => simp_all
  | firstFails hf hp hw ih =>
    cases h' with
    | first hf' hp' hw' =>
      cases hf.symm.trans hf'
      exact absurd (ih hw').1 (by simp)
    | firstFails hf' hp' hw' =>
      cases hf.symm.trans hf'
      exact ih hw'
    | _ => simp_all

/-! ## 3. Fragments that are not started -/

/-- How many fragments were not spread yet. -/
def unstarted (context : Context) (state : State) : Nat :=
  (context.fragments.filter fun fragment => (state.progress? fragment.name).isNone).length

theorem unstarted_le (context : Context) (state : State) :
    unstarted context state ≤ context.fragments.length := List.length_filter_le _ _

theorem unstarted_noted_lt {context : Context} {state : State} {name : Name} {fragment : Fragment}
    (hf : context.fragment? name = some fragment) (hp : state.progress? name = none)
    (progress : Progress) :
    unstarted context (state.noted name progress) < unstarted context state := by
  have hname : fragment.name = name := by simpa using List.find?_some hf
  have hmem : fragment ∈ context.fragments := List.mem_of_find?_eq_some hf
  have hsplit : (context.fragments.filter fun f =>
        ((state.noted name progress).progress? f.name).isNone) =
      (context.fragments.filter fun f => (state.progress? f.name).isNone).filter
        fun f => f.name ≠ name := by
    rw [List.filter_filter]
    refine List.filter_congr fun f _ => ?_
    rw [progress?_noted]
    by_cases h : name = f.name
    · simp [h]
    · simp [h, Ne.symm h]
  unfold unstarted
  rw [hsplit]
  refine List.length_filter_lt_length_iff_exists.mpr ⟨fragment, ?_, by simp [hname]⟩
  exact List.mem_filter.mpr ⟨hmem, by simp [hname, hp]⟩

theorem progress?_of_resolve {context : Context} {type : Name} {state after : State}
    {value? : Option Json} (hr : outcome (resolve context type) state = (.ok value?, after))
    (name : Name) : after.progress? name = state.progress? name := by
  rw [outcome_resolve] at hr
  cases hr
  rfl

/-- The object of a fragment stays what it is. -/
theorem Runs.keeps_finished {context : Context} {task : Task} {state after : State}
    {result : Except WalkError Json.Object} (h : Runs context task state result after) {name : Name}
    {mock : Json.Object} (hs : state.progress? name = some (.finished mock)) :
    after.progress? name = some (.finished mock) := by
  induction h with
  | typename | lookupFails | input | nil | unknown | again | cyclic => exact hs
  | leaf _ _ _ _ hr => rw [progress?_of_resolve hr]; exact hs
  | composite _ _ _ _ hr ih => rw [progress?_of_resolve hr]; exact ih hs
  | compositeFails _ _ _ _ ih | fragment _ ih | inline _ ih | consFails _ ih => exact ih hs
  | cons _ _ ihw ihs => exact ihs (ihw hs)
  | @first other _ _ _ _ _ hp _ ih =>
    have hne : other ≠ name := fun e => by simp [← e, hp] at hs
    rw [progress?_noted, if_neg hne]
    exact ih (by rwa [progress?_noted, if_neg hne])
  | @firstFails other _ _ _ _ _ hp _ ih =>
    have hne : other ≠ name := fun e => by simp [← e, hp] at hs
    exact ih (by rwa [progress?_noted, if_neg hne])

/-- A walk that succeeds leaves those fragments started that were. -/
theorem Runs.started_iff {context : Context} {task : Task} {state after : State}
    {result : Except WalkError Json.Object} (h : Runs context task state result after)
    {mock : Json.Object} (hm : result = .ok mock) (name : Name) :
    after.progress? name = some .started ↔ state.progress? name = some .started := by
  induction h generalizing mock with
  | typename | nil | again => exact Iff.rfl
  | lookupFails | compositeFails | input | consFails | unknown | cyclic | firstFails => cases hm
  | leaf _ _ _ _ hr => rw [progress?_of_resolve hr]
  | composite _ _ _ _ hr ih => rw [progress?_of_resolve hr]; exact ih rfl
  | fragment _ ih | inline _ ih => exact ih hm
  | cons _ _ ihw ihs => exact (ihs hm).trans (ihw rfl)
  | @first other _ _ _ _ _ hp _ ih =>
    -- The fragment itself was not started before and is finished after.
    have ih := ih rfl
    rw [progress?_noted] at ih ⊢
    by_cases hne : other = name
    · simp [← hne, hp]
    · simpa [hne] using ih

theorem Runs.keeps_progress {context : Context} {task : Task} {state after : State}
    {result : Except WalkError Json.Object} (h : Runs context task state result after) {name : Name}
    (hs : (state.progress? name).isSome) : (after.progress? name).isSome := by
  induction h with
  | typename | lookupFails | input | nil | unknown | again | cyclic => exact hs
  | leaf _ _ _ _ hr => rw [progress?_of_resolve hr]; exact hs
  | composite _ _ _ _ hr ih => rw [progress?_of_resolve hr]; exact ih hs
  | compositeFails _ _ _ _ ih | fragment _ ih | inline _ ih | consFails _ ih => exact ih hs
  | cons _ _ ihw ihs => exact ihs (ihw hs)
  | first _ _ _ ih =>
    rw [progress?_noted]
    split
    · rfl
    · next hne => exact ih (by rwa [progress?_noted, if_neg hne])
  | firstFails _ _ _ ih =>
    refine ih ?_
    rw [progress?_noted]
    split
    · rfl
    · exact hs

theorem Runs.unstarted_le {context : Context} {task : Task} {state after : State}
    {result : Except WalkError Json.Object} (h : Runs context task state result after) :
    unstarted context after ≤ unstarted context state := by
  simp only [unstarted, ← List.countP_eq_length_filter]
  refine List.countP_mono_left fun fragment _ hn => ?_
  cases hp : state.progress? fragment.name with
  | none => rfl
  | some progress =>
    have hs : (state.progress? fragment.name).isSome := by simp [hp]
    have := h.keeps_progress hs
    simp_all

/-! ## 4. Every task has a derivation -/

/-- A computation does in a state what a task asks for. -/
def Fulfils (context : Context) (task : Task) (walk : Walk Json.Object) (state : State) : Prop :=
  Runs context task state (outcome walk state).1 (outcome walk state).2

section Selections

variable {context : Context} {depth : Nat} {spread : Name → Walk Json.Object}

/-- A field that is found is walked by its rules, if the selections on it are. -/
theorem fulfils_field {cursor name : Name} {alias? : Option Name} {arguments : List Argument}
    {directives : List Directive} {nested : List Selection} {state : State} {found : Target}
    (hn : name ≠ "__typename") (ht : target context.schema cursor name = .ok found)
    {walk : Walk Json.Object} (hw : Fulfils context (.many found.name [] nested) walk state) :
    Fulfils context (.one cursor (.field alias? name arguments directives nested))
      (do
        let value? ← fieldValue context name found walk
        return fieldMembers (alias?.getD name) found.depth value?) state := by
  unfold Fulfils at hw ⊢
  rw [outcome_bind]
  cases hk : found.kind.isComposite with
  | true =>
    rcases h : outcome walk state with ⟨error | mock, between⟩
    · rw [outcome_fieldValue_fails hk h]
      rw [h] at hw
      exact .compositeFails hn ht hk hw
    · rw [outcome_fieldValue_composite hk h (outcome_resolve ..)]
      rw [h] at hw
      exact .composite hn ht hk hw (outcome_resolve ..)
  | false =>
    by_cases hi : found.kind = .inputObject
    · rw [outcome_fieldValue_input hi]
      exact .input hn ht hi
    · rw [outcome_fieldValue_leaf hk hi (outcome_resolve ..)]
      exact .leaf hn ht hk hi (outcome_resolve ..)

mutual

/-- A selection is walked by its rules, if the fragments that are left are. -/
theorem fulfils_contribution
    (hs : ∀ name state, unstarted context state ≤ depth →
      Fulfils context (.spread name) (spread name) state)
    (cursor : Name) (state : State) (hd : unstarted context state ≤ depth) :
    ∀ selection, Fulfils context (.one cursor selection)
      (contribution context spread cursor selection) state
  | .field alias? name arguments directives nested => by
    unfold Fulfils
    rw [contribution]
    by_cases hn : name = "__typename"
    · rw [if_pos hn]
      exact .typename hn
    rw [if_neg hn, outcome_bind, outcome_require]
    cases ht : target context.schema cursor name with
    | error mismatch => exact .lookupFails hn ht
    | ok found =>
      have hw := fulfils_selectionsInto hs found.name [] state hd nested
      exact fulfils_field hn ht hw
  | .spread name directives => .fragment (hs name state hd)
  | .inline condition directives nested =>
    .inline (fulfils_selectionsInto hs _ [] state hd nested)

theorem fulfils_selectionsInto
    (hs : ∀ name state, unstarted context state ≤ depth →
      Fulfils context (.spread name) (spread name) state)
    (cursor : Name) (mock : Json.Object) (state : State) (hd : unstarted context state ≤ depth) :
    ∀ set, Fulfils context (.many cursor mock set)
      (selectionsInto context spread cursor mock set) state
  | [] => .nil
  | selection :: rest => by
    have hw := fulfils_contribution hs cursor state hd selection
    unfold Fulfils at hw ⊢
    rw [selectionsInto, outcome_bind]
    rcases h : outcome (contribution context spread cursor selection) state with
      ⟨error | members, after⟩
    · rw [h] at hw
      exact .consFails hw
    · rw [h] at hw
      have hd' : unstarted context after ≤ depth := Nat.le_trans hw.unstarted_le hd
      exact .cons hw (fulfils_selectionsInto hs cursor _ after hd' rest)

end

end Selections

/-- A fragment is walked by its rules, if what is in it is when it is spread first. -/
theorem fulfils_spreadWith {context : Context} {walk : Fragment → Walk Json.Object} {name : Name}
    {state : State}
    (hw : ∀ fragment, context.fragment? name = some fragment → state.progress? name = none →
      Fulfils context (.many fragment.typeCondition [] fragment.selections) (walk fragment)
        (state.noted name .started)) :
    Fulfils context (.spread name) (spreadWith context walk name) state := by
  unfold Fulfils spreadWith
  cases hf : context.fragment? name with
  | none => exact .unknown hf
  | some fragment =>
    rw [outcome_bind, outcome_get]
    cases hp : state.progress? name with
    | some progress =>
      cases progress with
      | started => simpa [hp] using Runs.cyclic hf hp
      | finished mock => simpa [hp] using Runs.again hf hp
    | none =>
      have hw := hw fragment hf hp
      unfold Fulfils at hw
      simp only [hp, outcome_bind, outcome_note]
      rcases h : outcome (walk fragment) (state.noted name .started) with ⟨error | mock, after⟩
      · rw [h] at hw
        exact .firstFails hf hp hw
      · rw [h] at hw
        exact .first hf hp hw

/-- A fragment is walked by its rules, if as many fragments may be spread inside each other as are
left. -/
theorem fulfils_spreadAt (context : Context) (depth : Nat) (name : Name) (state : State)
    (hd : unstarted context state ≤ depth) :
    Fulfils context (.spread name) (spreadAt context depth name) state := by
  induction depth generalizing name state with
  | zero =>
    -- With no fragment left there is none that would have to be walked.
    refine fulfils_spreadWith fun fragment hf hp => ?_
    have := unstarted_noted_lt hf hp .started
    omega
  | succ depth ih =>
    refine fulfils_spreadWith fun fragment hf hp => ?_
    have := unstarted_noted_lt hf hp .started
    exact fulfils_selectionsInto ih _ [] _ (by omega) _

/-- The computation that carries out a task. -/
def Task.walk (context : Context) : Task → Walk Json.Object
  | .one cursor selection =>
    contribution context (spreadAt context context.fragments.length) cursor selection
  | .many cursor mock set =>
    selectionsInto context (spreadAt context context.fragments.length) cursor mock set
  | .spread name => spreadAt context context.fragments.length name

theorem fulfils_walk (context : Context) (task : Task) (state : State) :
    Fulfils context task (task.walk context) state := by
  have hd := unstarted_le context state
  have hs := fulfils_spreadAt context context.fragments.length
  cases task with
  | one cursor selection => exact fulfils_contribution hs cursor state hd selection
  | many cursor mock set => exact fulfils_selectionsInto hs cursor mock state hd set
  | spread name => exact hs name state hd

/-- **Walks are what their rules derive.** Every task has a derivation, it has no other one, and its
result is that of the walk. -/
theorem runs_iff_outcome {context : Context} {task : Task} {state after : State}
    {result : Except WalkError Json.Object} :
    Runs context task state result after ↔ outcome (task.walk context) state = (result, after) := by
  have hw := fulfils_walk context task state
  constructor
  · intro h
    obtain ⟨hr, ha⟩ := hw.unique h
    exact Prod.ext hr ha
  · intro h
    unfold Fulfils at hw
    rwa [h] at hw

/-- A walk from the start, as a derivation. -/
theorem runs_perform (context : Context) (cursor : Name) (set : List Selection) (calls : Calls) :
    ∃ after,
      Runs context (.many cursor [] set) ⟨[], calls⟩ (perform context cursor set calls).1 after ∧
        after.calls = (perform context cursor set calls).2 :=
  ⟨_, fulfils_walk context (.many cursor [] set) ⟨[], calls⟩, rfl⟩

/-! ## 5. A small schema -/

namespace Sample

/-- Users and the teams they are in. -/
def staff : TypeSystem where
  types := [
    BuiltIn.object "Query" [
      BuiltIn.plain "me" (.named "User"), BuiltIn.plain "users" (.list (.nonNullNamed "User"))],
    BuiltIn.object "User" [
      BuiltIn.plain "name" BuiltIn.text, BuiltIn.plain "team" (.named "Team")],
    BuiltIn.object "Team" [
      BuiltIn.plain "id" (.nonNullNamed "ID"), BuiltIn.plain "lead" (.named "User")]] ++
    BuiltIn.types
  directives := BuiltIn.directives
  roots := [(.query, "Query")]
  applied := []

def field (name : Name) (nested : List Selection) : Selection := .field none name [] [] nested

def spread (name : Name) : Selection := .spread name []

/-- The team of a user. -/
def teamOf : Fragment := ⟨"teamOf", "User", [], [field "team" [field "id" []]]⟩

/-- A user, the team included. -/
def member : Fragment := ⟨"member", "User", [], [field "name" [], spread "teamOf"]⟩

/-- The user who asks and all users. -/
def everyone : List Selection :=
  [field "me" [spread "member"], field "users" [spread "teamOf", spread "member"]]

end Sample

end Walk

end MockGraph
