import MockGraph.Proofs.Walk.Cycles

/-!
# `Proofs/Walk/Renaming`: walks under other names of fragments

A walk looks its fragments up by their names, when it spreads them and when it notes how far they
have come. So it does the same with other fragments under other names, as long as the look-ups agree
where it comes (`Mirrors`): it asks the same resolvers in the same order, and gives the same object,
or the same error with the other name in it.

Main statement, `Runs.renamed`, by induction on the derivation. The states of the two walks hold the
same progress, up to the names and to fragments where the walks do not come.
-/

set_option autoImplicit false

namespace MockGraph

open Syntax

/-! ## 1. Other names -/

mutual

/-- A selection with its spreads under other names. -/
def Syntax.Selection.renamed (rename : Name → Name) : Selection → Selection
  | .field alias? name arguments directives nested =>
    .field alias? name arguments directives (Selection.renamedIn rename nested)
  | .spread name directives => .spread (rename name) directives
  | .inline condition directives nested =>
    .inline condition directives (Selection.renamedIn rename nested)

def Syntax.Selection.renamedIn (rename : Name → Name) : List Selection → List Selection
  | [] => []
  | selection :: rest => selection.renamed rename :: Selection.renamedIn rename rest

end

def Syntax.Fragment.renamed (rename : Name → Name) (fragment : Fragment) : Fragment :=
  { fragment with
    name := rename fragment.name
    selections := Selection.renamedIn rename fragment.selections }

def WalkError.renamed (rename : Name → Name) : WalkError → WalkError
  | .mismatch cause => .mismatch cause
  | .unknownFragment name => .unknownFragment (rename name)
  | .cyclicFragment name => .cyclicFragment (rename name)

mutual

theorem renamed_id : ∀ selection : Selection, selection.renamed id = selection
  | .field alias? name arguments directives nested => by
    rw [Selection.renamed, renamedIn_id nested]
  | .spread name directives => rfl
  | .inline condition directives nested => by
    rw [Selection.renamed, renamedIn_id nested]

theorem renamedIn_id : ∀ set : List Selection, Selection.renamedIn id set = set
  | [] => rfl
  | selection :: rest => by
    rw [Selection.renamedIn, renamed_id selection, renamedIn_id rest]

end

theorem Syntax.Fragment.renamed_id (fragment : Fragment) : fragment.renamed id = fragment := by
  rw [Fragment.renamed, renamedIn_id]
  rfl

namespace Walk

variable {rename : Name → Name}

def Task.renamed (rename : Name → Name) : Task → Task
  | .one cursor selection => .one cursor (selection.renamed rename)
  | .many cursor mock set => .many cursor mock (Selection.renamedIn rename set)
  | .spread name => .spread (rename name)

section Spreads

variable {schema : TypeSystem}

mutual

/-- A walk comes to the same spreads, under their other names. -/
theorem spreadNames_renamed (cursor : Name) : ∀ selection : Selection,
    spreadNames (visits schema cursor (selection.renamed rename)) =
      (spreadNames (visits schema cursor selection)).map rename
  | .field alias? name arguments directives nested => by
    rw [Selection.renamed, visits, visits, spreadNames_field, spreadNames_field]
    cases descent? schema cursor name with
    | none => rfl
    | some type => exact spreadsIn_renamedIn type nested
  | .spread name directives => rfl
  | .inline condition directives nested => by
    rw [Selection.renamed, visits, visits, spreadNames_inline, spreadNames_inline]
    exact spreadsIn_renamedIn _ nested

theorem spreadsIn_renamedIn (cursor : Name) : ∀ set : List Selection,
    spreadsIn schema cursor (Selection.renamedIn rename set) =
      (spreadsIn schema cursor set).map rename
  | [] => rfl
  | selection :: rest => by
    have hrest := spreadsIn_renamedIn cursor rest
    unfold spreadsIn at hrest ⊢
    rw [Selection.renamedIn, visitsIn, visitsIn, spreadNames_append, spreadNames_append,
      List.map_append, spreadNames_renamed cursor selection, hrest]

end

end Spreads

/-! ## 2. Walks side by side -/

/-- Another context has the fragments that a walk comes to, under their other names. -/
structure Mirrors (rename : Name → Name) (context context' : Context) (reached : Name → Prop) :
    Prop where
  schema : context'.schema = context.schema
  registry : context'.registry = context.registry
  /-- Fragments that the walk comes to keep different names. -/
  injective : ∀ name other, reached name → reached other → rename name = rename other → name = other
  fragments : ∀ name, reached name →
    context'.fragment? (rename name) = (context.fragment? name).map (Fragment.renamed rename)
  closed : ∀ name inner, reached name → Spreads context name inner → reached inner

/-- Another state holds the same progress of the fragments that a walk comes to. -/
structure State.Mirrors (rename : Name → Name) (reached : Name → Prop) (state state' : State) :
    Prop where
  calls : state'.calls = state.calls
  progress : ∀ name, reached name → state'.progress? (rename name) = state.progress? name

section Mirrors

variable {context context' : Context} {reached : Name → Prop} {state state' after : State}

/-- Progress is noted in both states. -/
theorem State.Mirrors.noted (h : state.Mirrors rename reached state')
    (hm : Walk.Mirrors rename context context' reached) {name : Name} (hn : reached name)
    (progress : Progress) :
    (state.noted name progress).Mirrors rename reached (state'.noted (rename name) progress) := by
  refine ⟨h.calls, fun other ho => ?_⟩
  rw [progress?_noted, progress?_noted]
  by_cases hsame : name = other
  · rw [if_pos hsame, if_pos (congrArg rename hsame)]
  · rw [if_neg hsame, if_neg fun heq => hsame (hm.injective name other hn ho heq)]
    exact h.progress other ho

/-- A resolver is called in both states. -/
theorem State.Mirrors.resolved (h : state.Mirrors rename reached state')
    (hm : Walk.Mirrors rename context context' reached) {type : Name} {value? : Option Json}
    (hr : outcome (resolve context type) state = (.ok value?, after)) :
    ∃ after', outcome (resolve context' type) state' = (.ok value?, after') ∧
      after.Mirrors rename reached after' := by
  rw [outcome_resolve] at hr
  cases hr
  refine ⟨{ state' with calls := ((context.registry.call type).run state.calls).2 }, ?_,
    ⟨rfl, h.progress⟩⟩
  rw [outcome_resolve, hm.registry, h.calls]

/-- What a fragment spreads the walk comes to. -/
theorem Mirrors.inside (hm : Mirrors rename context context' reached) {name : Name}
    (hn : reached name) {fragment : Fragment} (hf : context.fragment? name = some fragment) :
    ∀ inner ∈ Task.spreads context.schema (.many fragment.typeCondition [] fragment.selections),
      reached inner :=
  fun inner hi => hm.closed name inner hn ⟨fragment, hf, hi⟩

theorem Mirrors.fragment?_some (hm : Mirrors rename context context' reached) {name : Name}
    (hn : reached name) {fragment : Fragment} (hf : context.fragment? name = some fragment) :
    context'.fragment? (rename name) = some (fragment.renamed rename) := by
  rw [hm.fragments name hn, hf]
  rfl

/-- **A walk does the same under other names.** -/
theorem Runs.renamed {task : Task} {result : Except WalkError Json.Object}
    (h : Runs context task state result after) (hm : Mirrors rename context context' reached)
    (hreach : ∀ name ∈ task.spreads context.schema, reached name)
    (hstate : state.Mirrors rename reached state') :
    ∃ after', Runs context' (task.renamed rename) state'
      (result.mapError (WalkError.renamed rename)) after' ∧ after.Mirrors rename reached after' := by
  induction h generalizing state' with
  | typename hn => exact ⟨state', .typename hn, hstate⟩
  | lookupFails hn ht => exact ⟨state', .lookupFails hn (hm.schema ▸ ht), hstate⟩
  | leaf hn ht hk hi hr =>
    obtain ⟨after', hr', hafter⟩ := hstate.resolved hm hr
    refine ⟨after', ?_, hafter⟩
    rw [← hm.schema]
    exact .leaf hn (hm.schema ▸ ht) hk hi hr'
  | composite hn ht hk hw hr ih =>
    rw [spreads_field_composite hn ht hk] at hreach
    obtain ⟨between', hw', hbetween⟩ := ih hreach hstate
    obtain ⟨after', hr', hafter⟩ := hbetween.resolved hm hr
    exact ⟨after', .composite hn (hm.schema ▸ ht) hk hw' hr', hafter⟩
  | compositeFails hn ht hk hw ih =>
    rw [spreads_field_composite hn ht hk] at hreach
    obtain ⟨after', hw', hafter⟩ := ih hreach hstate
    exact ⟨after', .compositeFails hn (hm.schema ▸ ht) hk hw', hafter⟩
  | input hn ht hk => exact ⟨state', .input hn (hm.schema ▸ ht) hk, hstate⟩
  | fragment hw ih =>
    rw [spreads_spread] at hreach
    obtain ⟨after', hw', hafter⟩ := ih hreach hstate
    exact ⟨after', .fragment hw', hafter⟩
  | inline hw ih =>
    rw [spreads_inline] at hreach
    obtain ⟨after', hw', hafter⟩ := ih hreach hstate
    exact ⟨after', .inline hw', hafter⟩
  | nil => exact ⟨state', .nil, hstate⟩
  | cons hw hs ihw ihs =>
    rw [spreads_cons] at hreach
    obtain ⟨between', hw', hbetween⟩ :=
      ihw (fun name hn => hreach name (List.mem_append_left _ hn)) hstate
    obtain ⟨after', hs', hafter⟩ :=
      ihs (fun name hn => hreach name (List.mem_append_right _ hn)) hbetween
    exact ⟨after', .cons hw' hs', hafter⟩
  | consFails hw ih =>
    rw [spreads_cons] at hreach
    obtain ⟨after', hw', hafter⟩ :=
      ih (fun name hn => hreach name (List.mem_append_left _ hn)) hstate
    exact ⟨after', .consFails hw', hafter⟩
  | @unknown name _ hf =>
    have hn := hreach name (List.mem_singleton.mpr rfl)
    refine ⟨state', .unknown ?_, hstate⟩
    rw [hm.fragments name hn, hf]
    rfl
  | @again name _ _ _ hf hp =>
    have hn := hreach name (List.mem_singleton.mpr rfl)
    exact ⟨state', .again (hm.fragment?_some hn hf) ((hstate.progress name hn).trans hp), hstate⟩
  | @cyclic name _ _ hf hp =>
    have hn := hreach name (List.mem_singleton.mpr rfl)
    exact ⟨state', .cyclic (hm.fragment?_some hn hf) ((hstate.progress name hn).trans hp), hstate⟩
  | @first name _ _ _ _ hf hp hw ih =>
    have hn := hreach name (List.mem_singleton.mpr rfl)
    obtain ⟨after', hw', hafter⟩ := ih (hm.inside hn hf) (hstate.noted hm hn .started)
    exact ⟨_, .first (hm.fragment?_some hn hf) ((hstate.progress name hn).trans hp) hw',
      hafter.noted hm hn _⟩
  | @firstFails name _ _ _ _ hf hp hw ih =>
    have hn := hreach name (List.mem_singleton.mpr rfl)
    obtain ⟨after', hw', hafter⟩ := ih (hm.inside hn hf) (hstate.noted hm hn .started)
    exact ⟨after', .firstFails (hm.fragment?_some hn hf) ((hstate.progress name hn).trans hp) hw',
      hafter⟩

/-- The same holds from the start. -/
theorem perform_renamed (hm : Mirrors rename context context' reached) {cursor : Name}
    {set : List Selection} (hreach : ∀ name ∈ spreadsIn context.schema cursor set, reached name)
    (calls : Calls) :
    perform context' cursor (Selection.renamedIn rename set) calls =
      ((perform context cursor set calls).1.mapError (WalkError.renamed rename),
        (perform context cursor set calls).2) := by
  obtain ⟨after, hruns, hcalls⟩ := runs_perform context cursor set calls
  obtain ⟨after', hruns', hafter⟩ := hruns.renamed hm hreach ⟨rfl, fun name _ => rfl⟩
  obtain ⟨other, hother, hcalls'⟩ :=
    runs_perform context' cursor (Selection.renamedIn rename set) calls
  obtain ⟨hresult, rfl⟩ := hother.unique hruns'
  exact Prod.ext hresult (by rw [← hcalls', hafter.calls, hcalls])

end Mirrors

end Walk

end MockGraph
