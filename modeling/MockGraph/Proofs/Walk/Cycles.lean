import MockGraph.Generation
import MockGraph.Proofs.Walk.Runs
import Mathlib.Logic.Relation

/-!
# `Proofs/Walk/Cycles`: what spreads have to be for a walk to succeed

A walk does not come to everything that is written. It comes to the selections of a set, to those on
fields that lead to a composite type and to those of inline fragments, and from a spread to the
selections of its fragment. `visitsIn` and `Reachable` say where it comes.

Main statement, `walkOperation_ends`: a walk comes to an end whatever spreads what. If it finds each
field that it comes to and each fragment, it fails exactly if one of these fragments reaches itself,
and it names one that does.

The proof is that of a depth-first search. A fragment that is met while it is `started` reaches
itself. A fragment that is `finished` does not, because of an invariant, `Settled`: it spreads
fragments that are finished, and no fragment is finished before those that it spreads.
-/

set_option autoImplicit false

namespace MockGraph.Walk

open Syntax

/-! ## 1. Where a walk comes -/

/-- The type on which the selections of a field are walked. There is none for a leaf, for the name
of the type and for a field that is not found. -/
def descent? (schema : TypeSystem) (cursor field : Name) : Option Name :=
  if field = "__typename" then none
  else
    match target schema cursor field with
    | .ok found => if found.kind.isComposite then some found.name else none
    | .error _ => none

/-- A selection that a walk comes to, and the type it is made on. -/
structure Visit where
  cursor : Name
  selection : Selection

mutual

/-- Where a walk comes from a selection, spreads being left alone. -/
def visits (schema : TypeSystem) (cursor : Name) : Selection → List Visit
  | .field alias? name arguments directives nested =>
    ⟨cursor, .field alias? name arguments directives nested⟩ ::
      match descent? schema cursor name with
      | some type => visitsIn schema type nested
      | none => []
  | .spread name directives => [⟨cursor, .spread name directives⟩]
  | .inline condition directives nested =>
    ⟨cursor, .inline condition directives nested⟩ :: visitsIn schema (condition.getD cursor) nested

def visitsIn (schema : TypeSystem) (cursor : Name) : List Selection → List Visit
  | [] => []
  | selection :: rest => visits schema cursor selection ++ visitsIn schema cursor rest

end

/-- A walk finds the field that it comes to, and values of its type can be made. -/
def Visit.Selectable (schema : TypeSystem) (visit : Visit) : Prop :=
  match visit.selection with
  | .field _ name _ _ _ => name = "__typename" ∨
      ∃ found, target schema visit.cursor name = .ok found ∧ found.kind ≠ .inputObject
  | _ => True

instance (schema : TypeSystem) : (visit : Visit) → Decidable (visit.Selectable schema)
  | ⟨cursor, .field _ name _ _ _⟩ =>
    match h : target schema cursor name with
    | .ok found =>
      decidable_of_iff (name = "__typename" ∨ found.kind ≠ .inputObject) (by
        simp [Visit.Selectable, h])
    | .error _ => decidable_of_iff (name = "__typename") (by simp [Visit.Selectable, h])
  | ⟨_, .spread _ _⟩ | ⟨_, .inline _ _ _⟩ => .isTrue trivial

/-- The fragments that are spread where a walk comes. -/
def spreadNames (found : List Visit) : List Name :=
  found.filterMap fun visit =>
    match visit.selection with
    | .spread name _ => some name
    | _ => none

@[simp] theorem spreadNames_nil : spreadNames [] = [] := rfl

@[simp] theorem spreadNames_field (cursor name : Name) (alias? : Option Name)
    (arguments : List Argument) (directives : List Directive) (nested : List Selection)
    (found : List Visit) :
    spreadNames (⟨cursor, .field alias? name arguments directives nested⟩ :: found) =
      spreadNames found := rfl

@[simp] theorem spreadNames_spread (cursor name : Name) (directives : List Directive)
    (found : List Visit) :
    spreadNames (⟨cursor, .spread name directives⟩ :: found) = name :: spreadNames found := rfl

@[simp] theorem spreadNames_inline (cursor : Name) (condition : Option Name)
    (directives : List Directive) (nested : List Selection) (found : List Visit) :
    spreadNames (⟨cursor, .inline condition directives nested⟩ :: found) = spreadNames found := rfl

@[simp] theorem spreadNames_append (found found' : List Visit) :
    spreadNames (found ++ found') = spreadNames found ++ spreadNames found' :=
  List.filterMap_append

/-- The fragments that are spread where a walk of selections comes. -/
def spreadsIn (schema : TypeSystem) (cursor : Name) (set : List Selection) : List Name :=
  spreadNames (visitsIn schema cursor set)

/-- A fragment spreads another one where a walk comes. -/
def Spreads (context : Context) (name inner : Name) : Prop :=
  ∃ fragment, context.fragment? name = some fragment ∧
    inner ∈ spreadsIn context.schema fragment.typeCondition fragment.selections

/-- The fragments that a walk comes to from the spreads of `names`. -/
inductive Reachable (context : Context) (names : List Name) : Name → Prop where
  | direct {name} (hn : name ∈ names) : Reachable context names name
  | through {name inner} (hn : Reachable context names name) (hs : Spreads context name inner) :
    Reachable context names inner

/-- A fragment reaches itself. -/
def Cyclic (context : Context) (name : Name) : Prop := Relation.TransGen (Spreads context) name name

section Reach

variable {context : Context} {names : List Name} {name inner : Name}

theorem Reachable.mono {wider : List Name} (h : Reachable context names name)
    (hw : ∀ name ∈ names, name ∈ wider) : Reachable context wider name := by
  induction h with
  | direct hn => exact .direct (hw _ hn)
  | through _ hs ih => exact .through ih hs

theorem Reachable.of_fragment {fragment : Fragment} (hf : context.fragment? name = some fragment)
    (h : Reachable context
      (spreadsIn context.schema fragment.typeCondition fragment.selections) inner) :
    Relation.TransGen (Spreads context) name inner := by
  induction h with
  | direct hn => exact .single ⟨fragment, hf, hn⟩
  | through _ hs ih => exact ih.tail hs

theorem Reachable.trans (h : Reachable context names name)
    (ht : Relation.TransGen (Spreads context) name inner) : Reachable context names inner := by
  induction ht with
  | single hs => exact .through h hs
  | tail _ hs ih => exact .through ih hs

/-- Names that spread each other only are all that is reached from them. -/
theorem Reachable.mem_of_closed (closed : List Name) (hn : ∀ name ∈ names, name ∈ closed)
    (hc : ∀ name inner, name ∈ closed → Spreads context name inner → inner ∈ closed)
    (h : Reachable context names name) : name ∈ closed := by
  induction h with
  | direct hm => exact hn _ hm
  | through _ hs ih => exact hc _ _ ih hs

end Reach

/-- Every field and fragment that a walk comes to is there. -/
structure Sound (context : Context) (found : List Visit) (names : List Name) : Prop where
  visits : ∀ visit ∈ found, visit.Selectable context.schema
  fragments : ∀ name, Reachable context names name → ∃ fragment,
    context.fragment? name = some fragment ∧
      ∀ visit ∈ visitsIn context.schema fragment.typeCondition fragment.selections,
        visit.Selectable context.schema

/-- Selections are sound if what a walk of them comes to is there. -/
def SoundIn (context : Context) (cursor : Name) (set : List Selection) : Prop :=
  Sound context (visitsIn context.schema cursor set) (spreadsIn context.schema cursor set)

/-! ## 2. Where a task comes -/

/-- Where a walk of a task comes, spreads being left alone. -/
def Task.visits (schema : TypeSystem) : Task → List Visit
  | .one cursor selection => Walk.visits schema cursor selection
  | .many cursor _ set => visitsIn schema cursor set
  | .spread _ => []

/-- The fragments that a task spreads. -/
def Task.spreads (schema : TypeSystem) : Task → List Name
  | .one cursor selection => spreadNames (Walk.visits schema cursor selection)
  | .many cursor _ set => spreadsIn schema cursor set
  | .spread name => [name]

section Parts

variable {schema : TypeSystem} {cursor name : Name} {alias? : Option Name} {mock : Json.Object}
  {arguments : List Argument} {directives : List Directive} {nested rest : List Selection}
  {selection : Selection} {condition : Option Name}

theorem descent?_composite {found : Target} (hn : name ≠ "__typename")
    (ht : target schema cursor name = .ok found) (hk : found.kind.isComposite = true) :
    descent? schema cursor name = some found.name := by
  simp [descent?, hn, ht, hk]

theorem visits_field_composite {found : Target} (hn : name ≠ "__typename")
    (ht : target schema cursor name = .ok found) (hk : found.kind.isComposite = true) :
    visits schema cursor (.field alias? name arguments directives nested) =
      ⟨cursor, .field alias? name arguments directives nested⟩ ::
        visitsIn schema found.name nested := by
  rw [visits, descent?_composite hn ht hk]

theorem spreads_field_composite {found : Target} (hn : name ≠ "__typename")
    (ht : target schema cursor name = .ok found) (hk : found.kind.isComposite = true) :
    Task.spreads schema (.one cursor (.field alias? name arguments directives nested)) =
      Task.spreads schema (.many found.name [] nested) := by
  rw [Task.spreads, visits_field_composite hn ht hk, spreadNames_field]
  rfl

theorem spreads_inline :
    Task.spreads schema (.one cursor (.inline condition directives nested)) =
      Task.spreads schema (.many (condition.getD cursor) [] nested) := by
  rw [Task.spreads, visits, spreadNames_inline]
  rfl

theorem spreads_spread :
    Task.spreads schema (.one cursor (.spread name directives)) =
      Task.spreads schema (.spread name) := by
  rw [Task.spreads, visits, spreadNames_spread]
  rfl

theorem spreads_cons :
    Task.spreads schema (.many cursor mock (selection :: rest)) =
      Task.spreads schema (.one cursor selection) ++
        Task.spreads schema (.many cursor mock rest) := by
  simp only [Task.spreads, spreadsIn, visitsIn, spreadNames_append]

end Parts

section SoundParts

variable {context : Context} {found found' : List Visit} {names names' : List Name}

theorem Sound.part (h : Sound context found names) (hv : ∀ visit ∈ found', visit ∈ found)
    (hn : ∀ name ∈ names', name ∈ names) : Sound context found' names' :=
  ⟨fun visit hm => h.visits visit (hv visit hm), fun name hr => h.fragments name (hr.mono hn)⟩

/-- Fragments that spread each other only are all that is reached from them. -/
theorem Sound.of_closed (closed : List Name) (hv : ∀ visit ∈ found, visit.Selectable context.schema)
    (hn : ∀ name ∈ names, name ∈ closed)
    (hc : ∀ name ∈ closed, ∃ fragment, context.fragment? name = some fragment ∧
      (∀ visit ∈ visitsIn context.schema fragment.typeCondition fragment.selections,
        visit.Selectable context.schema) ∧
      ∀ inner ∈ spreadsIn context.schema fragment.typeCondition fragment.selections,
        inner ∈ closed) :
    Sound context found names := by
  have hspreads : ∀ name inner, name ∈ closed → Spreads context name inner → inner ∈ closed := by
    rintro name inner hname ⟨fragment, hf, hm⟩
    obtain ⟨fragment', hf', -, hinner⟩ := hc name hname
    cases hf.symm.trans hf'
    exact hinner _ hm
  refine ⟨hv, fun name hr => ?_⟩
  obtain ⟨fragment, hf, hvisits, -⟩ := hc name (hr.mem_of_closed closed hn hspreads)
  exact ⟨fragment, hf, hvisits⟩

theorem Sound.inside {name : Name} {fragment : Fragment} (h : Sound context found [name])
    (hf : context.fragment? name = some fragment) :
    SoundIn context fragment.typeCondition fragment.selections := by
  have hself : Reachable context [name] name := .direct (List.mem_singleton.mpr rfl)
  refine ⟨?_, fun inner hr => h.fragments inner (hself.trans (hr.of_fragment hf))⟩
  obtain ⟨fragment', hf', hv⟩ := h.fragments name hself
  cases hf.symm.trans hf'
  exact hv

end SoundParts

/-! ## 3. Errors -/

/-- **A sound walk fails on a cycle only.** -/
theorem Runs.error_of_sound {context : Context} {task : Task} {state after : State}
    {result : Except WalkError Json.Object} (h : Runs context task state result after)
    (hs : Sound context (task.visits context.schema) (task.spreads context.schema))
    {error : WalkError} (he : result = .error error) : ∃ name, error = .cyclicFragment name := by
  induction h with
  | typename | leaf | composite | nil | again | first => cases he
  | lookupFails hn ht =>
    have hv := hs.visits _ (by rw [Task.visits, visits]; exact List.mem_cons_self)
    rcases hv with hv | ⟨found, hv, -⟩
    · exact absurd hv hn
    · cases ht.symm.trans hv
  | input hn ht hk =>
    have hv := hs.visits _ (by rw [Task.visits, visits]; exact List.mem_cons_self)
    rcases hv with hv | ⟨found, hv, hk'⟩
    · exact absurd hv hn
    · cases ht.symm.trans hv
      exact absurd hk hk'
  | unknown hf =>
    obtain ⟨fragment, hf', -⟩ := hs.fragments _ (.direct (List.mem_singleton.mpr rfl))
    cases hf.symm.trans hf'
  | cyclic =>
    cases he
    exact ⟨_, rfl⟩
  | compositeFails hn ht hk _ ih =>
    refine ih (hs.part (fun visit hm => ?_) fun name hm => ?_) he
    · rw [Task.visits, visits_field_composite hn ht hk]
      exact List.mem_cons_of_mem _ hm
    · rwa [spreads_field_composite hn ht hk]
  | fragment _ ih => exact ih (hs.part (by simp [Task.visits]) (by simp [spreads_spread])) he
  | inline _ ih =>
    refine ih (hs.part (fun visit hm => ?_) fun name hm => ?_) he
    · rw [Task.visits, visits]
      exact List.mem_cons_of_mem _ hm
    · rwa [spreads_inline]
  | cons _ _ _ ih =>
    refine ih (hs.part (fun visit hm => ?_) fun name hm => ?_) he
    · rw [Task.visits, visitsIn]
      exact List.mem_append_right _ hm
    · rw [spreads_cons]
      exact List.mem_append_right _ hm
  | consFails _ ih =>
    refine ih (hs.part (fun visit hm => ?_) fun name hm => ?_) he
    · rw [Task.visits, visitsIn]
      exact List.mem_append_left _ hm
    · rw [spreads_cons]
      exact List.mem_append_left _ hm
  | firstFails hf _ _ ih => exact ih (hs.inside hf) he

/-- What a walk calls cyclic it comes to, and it was started before or reaches itself. -/
theorem Runs.cyclic_of_error {context : Context} {task : Task} {state after : State}
    {result : Except WalkError Json.Object} (h : Runs context task state result after) {name : Name}
    (he : result = .error (.cyclicFragment name)) :
    Reachable context (task.spreads context.schema) name ∧
      (state.progress? name = some .started ∨ Cyclic context name) := by
  induction h with
  | typename | leaf | composite | nil | again | first | lookupFails | input | unknown => cases he
  | cyclic hf hp =>
    cases he
    exact ⟨.direct (List.mem_singleton.mpr rfl), .inl hp⟩
  | compositeFails hn ht hk _ ih =>
    rw [spreads_field_composite hn ht hk]
    exact ih he
  | fragment _ ih =>
    rw [spreads_spread]
    exact ih he
  | inline _ ih =>
    rw [spreads_inline]
    exact ih he
  | cons hw _ _ ih =>
    obtain ⟨hr, hc⟩ := ih he
    rw [hw.started_iff rfl] at hc
    rw [spreads_cons]
    exact ⟨hr.mono fun _ => List.mem_append_right _, hc⟩
  | consFails _ ih =>
    obtain ⟨hr, hc⟩ := ih he
    rw [spreads_cons]
    exact ⟨hr.mono fun _ => List.mem_append_left _, hc⟩
  | @firstFails spread _ fragment _ _ hf _ _ ih =>
    obtain ⟨hr, hc⟩ := ih he
    have ht : Relation.TransGen (Spreads context) spread name := hr.of_fragment hf
    refine ⟨(Reachable.direct (List.mem_singleton.mpr rfl)).trans ht, ?_⟩
    rw [progress?_noted] at hc
    split at hc
    · next hsame =>
      -- The fragment that was just started is met again: the way there leads from it to itself.
      exact .inr (hsame ▸ ht)
    · exact hc

/-! ## 4. Objects -/

/-- The walk of a fragment is over. -/
def State.Finished (state : State) (name : Name) : Prop :=
  ∃ mock, state.progress? name = some (.finished mock)

/-- A fragment that is finished spreads fragments that are, and does not reach itself. -/
structure Settled (context : Context) (state : State) : Prop where
  closed : ∀ name inner, state.Finished name → Spreads context name inner → state.Finished inner
  acyclic : ∀ name, state.Finished name → ¬ Cyclic context name

theorem Runs.finished {context : Context} {task : Task} {state after : State}
    {result : Except WalkError Json.Object} (h : Runs context task state result after) {name : Name}
    (hf : state.Finished name) : after.Finished name := by
  obtain ⟨mock, hf⟩ := hf
  exact ⟨mock, h.keeps_finished hf⟩

theorem finished_noted {state : State} {name other : Name} {mock : Json.Object} :
    (state.noted name (.finished mock)).Finished other ↔ other = name ∨ state.Finished other := by
  unfold State.Finished
  rw [progress?_noted]
  by_cases h : name = other
  · simp [h]
  · simp [h, Ne.symm h]

theorem Settled.start {context : Context} {state : State} {name : Name} (h : Settled context state)
    (hp : state.progress? name = none) : Settled context (state.noted name .started) := by
  have hsame : ∀ other, (state.noted name .started).Finished other ↔ state.Finished other := by
    intro other
    unfold State.Finished
    rw [progress?_noted]
    by_cases hn : name = other
    · simp [← hn, hp]
    · simp [hn]
  refine ⟨fun other inner hf hs => ?_, fun other hf => ?_⟩
  · exact (hsame inner).mpr (h.closed other inner ((hsame other).mp hf) hs)
  · exact h.acyclic other ((hsame other).mp hf)

theorem Settled.reach {context : Context} {state : State} {names : List Name} {name : Name}
    (h : Settled context state) (hf : ∀ name ∈ names, state.Finished name)
    (hr : Reachable context names name) : state.Finished name := by
  induction hr with
  | direct hn => exact hf _ hn
  | through _ hs ih => exact h.closed _ _ ih hs

/-- A fragment is finished after all that it spreads. -/
theorem Settled.finish {context : Context} {state : State} {name : Name} {fragment : Fragment}
    {mock : Json.Object} (h : Settled context state) (hf : context.fragment? name = some fragment)
    (hp : state.progress? name = some .started)
    (hn : ∀ inner ∈ spreadsIn context.schema fragment.typeCondition fragment.selections,
      state.Finished inner) :
    Settled context (state.noted name (.finished mock)) := by
  have hspreads : ∀ inner, Spreads context name inner → state.Finished inner := by
    rintro inner ⟨fragment', hf', hm⟩
    cases hf.symm.trans hf'
    exact hn inner hm
  refine ⟨fun other inner ho hs => ?_, fun other ho => ?_⟩
  · refine finished_noted.mpr (.inr ?_)
    rcases finished_noted.mp ho with rfl | ho
    · exact hspreads inner hs
    · exact h.closed other inner ho hs
  · rcases finished_noted.mp ho with rfl | ho
    · -- All that the fragment reaches is finished, but the fragment itself was only started.
      intro hcycle
      have hreach : ∀ inner, Relation.TransGen (Spreads context) other inner →
          state.Finished inner := by
        intro inner ht
        induction ht with
        | single hs => exact hspreads _ hs
        | tail _ hs ih => exact h.closed _ _ ih hs
      obtain ⟨found, hfound⟩ := hreach other hcycle
      cases hp.symm.trans hfound
    · exact h.acyclic other ho

/-- **A walk that succeeds has finished all that it spreads**, and what is finished stays settled.
-/
theorem Runs.settles {context : Context} {task : Task} {state after : State}
    {result : Except WalkError Json.Object} (h : Runs context task state result after)
    {mock : Json.Object} (hm : result = .ok mock) (hs : Settled context state) :
    Settled context after ∧ ∀ name ∈ task.spreads context.schema, after.Finished name := by
  induction h generalizing mock with
  | lookupFails | compositeFails | input | consFails | unknown | cyclic | firstFails => cases hm
  | typename hn =>
    refine ⟨hs, ?_⟩
    simp [Task.spreads, visits, descent?, hn]
  | @leaf _ _ _ _ _ _ _ _ _ after hn ht hk hi hr =>
    rw [outcome_resolve] at hr
    cases hr
    refine ⟨⟨hs.closed, hs.acyclic⟩, ?_⟩
    simp [Task.spreads, visits, descent?, hn, ht, hk]
  | composite hn ht hk _ hr ih =>
    obtain ⟨hs, hf⟩ := ih rfl hs
    rw [outcome_resolve] at hr
    cases hr
    rw [spreads_field_composite hn ht hk]
    exact ⟨⟨hs.closed, hs.acyclic⟩, hf⟩
  | fragment _ ih =>
    rw [spreads_spread]
    exact ih hm hs
  | inline _ ih =>
    rw [spreads_inline]
    exact ih hm hs
  | nil => exact ⟨hs, by simp [Task.spreads, spreadsIn, visitsIn]⟩
  | cons _ hrest ihw ihs =>
    obtain ⟨hs, hf⟩ := ihw rfl hs
    obtain ⟨hs, hf'⟩ := ihs hm hs
    refine ⟨hs, fun name hn => ?_⟩
    rw [spreads_cons] at hn
    rcases List.mem_append.mp hn with hn | hn
    · exact hrest.finished (hf name hn)
    · exact hf' name hn
  | again hf hp =>
    refine ⟨hs, fun name hn => ?_⟩
    rw [Task.spreads, List.mem_singleton] at hn
    exact ⟨_, hn ▸ hp⟩
  | @first name _ _ _ after hf hp hw ih =>
    obtain ⟨hs, hn⟩ := ih rfl (hs.start hp)
    have hstarted : after.progress? name = some .started :=
      (hw.started_iff rfl name).mpr (by simp [progress?_noted])
    refine ⟨hs.finish hf hstarted hn, fun other ho => ?_⟩
    rw [Task.spreads, List.mem_singleton] at ho
    exact finished_noted.mpr (.inl ho)

/-! ## 5. Walks from the start -/

theorem settled_start (context : Context) (calls : Calls) : Settled context ⟨[], calls⟩ := by
  constructor
  · rintro name inner ⟨mock, hf⟩
    cases hf
  · rintro name ⟨mock, hf⟩
    cases hf

section Start

variable {context : Context} {cursor : Name} {set : List Selection}

/-- A walk that finds all that it comes to gives an object and comes to no cycle, or it names a
fragment that it comes to and that reaches itself. -/
theorem perform_cases (hs : SoundIn context cursor set) (calls : Calls) :
    (∃ mock, (perform context cursor set calls).1 = .ok mock ∧
      ∀ name, Reachable context (spreadsIn context.schema cursor set) name →
        ¬ Cyclic context name) ∨
    ∃ name, (perform context cursor set calls).1 = .error (.cyclicFragment name) ∧
      Reachable context (spreadsIn context.schema cursor set) name ∧ Cyclic context name := by
  obtain ⟨after, hw, -⟩ := runs_perform context cursor set calls
  cases hresult : (perform context cursor set calls).1 with
  | ok mock =>
    obtain ⟨hsettled, hf⟩ := hw.settles hresult (settled_start context calls)
    exact .inl ⟨mock, rfl, fun name hr => hsettled.acyclic name (hsettled.reach hf hr)⟩
  | error error =>
    obtain ⟨name, rfl⟩ := hw.error_of_sound hs hresult
    obtain ⟨hr, hstarted | hcycle⟩ := hw.cyclic_of_error hresult
    · -- Nothing is started when the walk begins.
      cases hstarted
    · exact .inr ⟨name, rfl, hr, hcycle⟩

theorem perform_ok (hs : SoundIn context cursor set) (calls : Calls)
    (hc : ∀ name, ¬ Cyclic context name) :
    ∃ mock, (perform context cursor set calls).1 = .ok mock := by
  rcases perform_cases hs calls with ⟨mock, hok, -⟩ | ⟨name, -, -, hcycle⟩
  · exact ⟨mock, hok⟩
  · exact absurd hcycle (hc name)

end Start

/-- **Walks end, and they find cycles.** The walk of an operation has a derivation, whatever spreads
what. If it finds each field and fragment that it comes to, it calls a fragment cyclic exactly if it
comes to one that reaches itself; the one it names does; and without such a fragment there is an
object. -/
theorem walkOperation_ends (document : Document) (operation : Operation) (registry : Registry)
    (schema : TypeSystem) (root : Name) (calls : Calls) :
    let context : Context := ⟨schema, registry, document.fragments⟩
    let result := walkOperation document operation registry schema root calls
    let Comes := Reachable context (spreadsIn schema root operation.selections)
    let failure := fun name => Failure.invalidDocument [.cyclicFragment name]
    (∃ found after, Runs context (.many root [] operation.selections) ⟨[], calls⟩ found after ∧
      result = ((found.map Json.object).mapError WalkError.failure, after.calls)) ∧
    (SoundIn context root operation.selections →
      ((∃ name, result.1 = .error (failure name)) ↔ ∃ name, Comes name ∧ Cyclic context name) ∧
      (∀ name, result.1 = .error (failure name) → Comes name ∧ Cyclic context name) ∧
      ((¬ ∃ name, Comes name ∧ Cyclic context name) → ∃ mock, result.1 = .ok (.object mock))) ∧
    ∀ name, (failure name).causes =
      ["Cannot spread fragment \"" ++ name ++ "\" within itself."] := by
  intro context result Comes failure
  obtain ⟨after, hw, hcalls⟩ := runs_perform context root operation.selections calls
  have hresult : result =
      (((perform context root operation.selections calls).1.map Json.object).mapError
        WalkError.failure, after.calls) := by
    rw [hcalls]
    rfl
  refine ⟨⟨_, after, hw, hresult⟩, fun hs => ?_, fun name => rfl⟩
  rcases perform_cases hs calls with ⟨mock, hok, hnone⟩ | ⟨name, herror, hcomes, hcycle⟩
  · have hobject : result.1 = .ok (.object mock) := by
      rw [hresult, hok]
      rfl
    have hnot : ∀ name, result.1 ≠ .error (failure name) := by
      intro name he
      cases hobject.symm.trans he
    refine ⟨⟨?_, ?_⟩, fun name he => absurd he (hnot name), fun _ => ⟨mock, hobject⟩⟩
    · rintro ⟨name, he⟩
      exact absurd he (hnot name)
    · rintro ⟨name, hcomes, hcycle⟩
      exact absurd hcycle (hnone name hcomes)
  · have hfailure : result.1 = .error (failure name) := by
      rw [hresult, herror]
      rfl
    refine ⟨⟨fun _ => ⟨name, hcomes, hcycle⟩, fun _ => ⟨name, hfailure⟩⟩, ?_, ?_⟩
    · intro other he
      cases hfailure.symm.trans he
      exact ⟨hcomes, hcycle⟩
    · intro hn
      exact absurd ⟨name, hcomes, hcycle⟩ hn

namespace Sample

/-- The lead of a team, who is in a team again. -/
def leader : Fragment := ⟨"leader", "Team", [], [field "lead" [spread "colleague"]]⟩

/-- The team of a user, with its lead. -/
def colleague : Fragment := ⟨"colleague", "User", [], [field "team" [spread "leader"]]⟩

/-- An operation on the user who asks, in a document with `leader` and `colleague`. -/
def circular : Operation := ⟨.query, none, [], [], [field "me" [spread "colleague"]]⟩

end Sample

/-- Two fragments that spread each other, through fields, are called cyclic. -/
theorem walkOperation_ends_circular :
    let document : Document :=
      [.operation Sample.circular, .fragment Sample.leader, .fragment Sample.colleague]
    let context : Context := ⟨Sample.staff, .empty, document.fragments⟩
    SoundIn context "Query" Sample.circular.selections ∧ Cyclic context "colleague" ∧
    ∃ name, (walkOperation document Sample.circular .empty Sample.staff "Query" []).1 =
      .error (.invalidDocument [.cyclicFragment name]) := by
  intro document context
  have hs : SoundIn context "Query" Sample.circular.selections := by
    refine .of_closed ["leader", "colleague"] (by decide) (by decide) fun name hn => ?_
    rcases List.mem_cons.mp hn with rfl | hn
    · exact ⟨Sample.leader, rfl, by decide, by decide⟩
    rw [List.mem_singleton.mp hn]
    exact ⟨Sample.colleague, rfl, by decide, by decide⟩
  have hto : Spreads context "colleague" "leader" := ⟨Sample.colleague, rfl, by decide⟩
  have hfro : Spreads context "leader" "colleague" := ⟨Sample.leader, rfl, by decide⟩
  have hcycle : Cyclic context "colleague" := .tail (.single hto) hfro
  have hends := walkOperation_ends document Sample.circular .empty Sample.staff "Query" []
  exact ⟨hs, hcycle, (hends.2.1 hs).1.mpr ⟨"colleague", .direct (by decide), hcycle⟩⟩

end MockGraph.Walk
