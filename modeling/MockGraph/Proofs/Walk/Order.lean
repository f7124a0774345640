import MockGraph.Proofs.Walk.Cycles
import MockGraph.Proofs.Walk.Expansion
import MockGraph.Validation.Merge

/-!
# `Proofs/Walk/Order`: the order in which a walk comes to its fields

The stops of a walk are the fields other than `__typename` and the spreads. `stopsIn` lists those of
selections in document order, each field after the selections on it, and leaves spreads alone.
`tour` puts the stops of a fragment where it is spread first, and nothing where it is spread again.

Main statement, `fieldOrder_perm`: the fields of a tour are those of the selections and, once for
each fragment that is reached, those of its body. How often a fragment is spread makes no
difference.
-/

set_option autoImplicit false

namespace MockGraph.Walk

open Syntax

/-! ## 1. Stops -/

/-- What a walk stops at: a field that a resolver may supply, or a spread. -/
inductive Stop where
  | field (field : Occurrence)
  | spread (name : Name)

def Stop.field? : Stop → Option Occurrence
  | .field occurrence => some occurrence
  | .spread _ => none

def Stop.spread? : Stop → Option Name
  | .field _ => none
  | .spread name => some name

/-- The fields among stops. -/
def stopFields (stops : List Stop) : List Occurrence := stops.filterMap Stop.field?

/-- The spreads among stops. -/
def stopSpreads (stops : List Stop) : List Name := stops.filterMap Stop.spread?

section Stops

variable (field : Occurrence) (name : Name) (stops rest : List Stop)

@[simp] theorem stopFields_nil : stopFields [] = [] := rfl

@[simp] theorem stopFields_field :
    stopFields (.field field :: stops) = field :: stopFields stops := rfl

@[simp] theorem stopFields_spread : stopFields (.spread name :: stops) = stopFields stops := rfl

@[simp] theorem stopFields_append :
    stopFields (stops ++ rest) = stopFields stops ++ stopFields rest := List.filterMap_append

@[simp] theorem stopSpreads_nil : stopSpreads [] = [] := rfl

@[simp] theorem stopSpreads_field :
    stopSpreads (.field field :: stops) = stopSpreads stops := rfl

@[simp] theorem stopSpreads_spread :
    stopSpreads (.spread name :: stops) = name :: stopSpreads stops := rfl

@[simp] theorem stopSpreads_append :
    stopSpreads (stops ++ rest) = stopSpreads stops ++ stopSpreads rest := List.filterMap_append

end Stops

mutual

/-- The stops in a selection on the type `cursor`. -/
def stopsOf (schema : TypeSystem) (cursor : Name) : Selection → List Stop
  | .field alias? name arguments _ nested =>
    if name = "__typename" then []
    else
      (match descent? schema cursor name with
        | some type => stopsIn schema type nested
        | none => []) ++ [.field ⟨cursor, alias?.getD name, name, arguments, nested⟩]
  | .spread name _ => [.spread name]
  | .inline condition _ nested => stopsIn schema (condition.getD cursor) nested

def stopsIn (schema : TypeSystem) (cursor : Name) : List Selection → List Stop
  | [] => []
  | selection :: rest => stopsOf schema cursor selection ++ stopsIn schema cursor rest

end

/-- The field of a visit, unless it is `__typename`. -/
def Visit.field? (visit : Visit) : Option Occurrence :=
  (occurrence? visit.cursor visit.selection).filter fun field => field.name ≠ "__typename"

/-- The fields that a walk comes to from selections, spreads being left alone. -/
def visitedFields (schema : TypeSystem) (cursor : Name) (set : List Selection) :
    List Occurrence :=
  (visitsIn schema cursor set).filterMap Visit.field?

section Visits

variable {schema : TypeSystem}

mutual

/-- Stops are what a walk comes to, but fields come after the selections on them. -/
theorem stopFields_perm {cursor : Name} : ∀ selection,
    (stopFields (stopsOf schema cursor selection)).Perm
      ((visits schema cursor selection).filterMap Visit.field?)
  | .field alias? name arguments directives nested => by
    by_cases hn : name = "__typename"
    · have hd : descent? schema cursor name = none := by rw [descent?, if_pos hn]
      have hhead :
          Visit.field? ⟨cursor, .field alias? name arguments directives nested⟩ = none := by
        simp [Visit.field?, occurrence?, hn]
      rw [stopsOf, if_pos hn, visits, hd, List.filterMap_cons, hhead]
      exact List.Perm.refl _
    · rw [stopsOf, if_neg hn, visits]
      simp only [stopFields_append, stopFields_field, stopFields_nil]
      have hhead : Visit.field? ⟨cursor, .field alias? name arguments directives nested⟩ =
          some ⟨cursor, alias?.getD name, name, arguments, nested⟩ := by
        simp [Visit.field?, occurrence?, hn]
      rw [List.filterMap_cons, hhead]
      refine List.perm_append_comm.trans (List.Perm.cons _ ?_)
      cases descent? schema cursor name with
      | none => exact List.Perm.refl _
      | some type => exact stopFields_perm_in nested
  | .spread name directives => by simp [stopsOf, visits, Visit.field?, occurrence?]
  | .inline condition directives nested => by
    rw [stopsOf, visits]
    exact stopFields_perm_in nested

theorem stopFields_perm_in {cursor : Name} : ∀ set,
    (stopFields (stopsIn schema cursor set)).Perm (visitedFields schema cursor set)
  | [] => List.Perm.refl _
  | selection :: rest => by
    rw [stopsIn, visitedFields, visitsIn, stopFields_append, List.filterMap_append]
    exact (stopFields_perm selection).append (stopFields_perm_in rest)

end

mutual

theorem stopSpreads_stopsOf {cursor : Name} : ∀ selection,
    stopSpreads (stopsOf schema cursor selection) = spreadNames (visits schema cursor selection)
  | .field alias? name arguments directives nested => by
    by_cases hn : name = "__typename"
    · have hd : descent? schema cursor name = none := by rw [descent?, if_pos hn]
      rw [stopsOf, if_pos hn, visits, hd]
      rfl
    · rw [stopsOf, if_neg hn, visits, spreadNames_field, stopSpreads_append, stopSpreads_field,
        stopSpreads_nil, List.append_nil]
      cases descent? schema cursor name with
      | none => rfl
      | some type => exact stopSpreads_stopsIn nested
  | .spread name directives => by
    rw [stopsOf, visits]
    rfl
  | .inline condition directives nested => by
    rw [stopsOf, visits, spreadNames_inline]
    exact stopSpreads_stopsIn nested

theorem stopSpreads_stopsIn {cursor : Name} : ∀ set,
    stopSpreads (stopsIn schema cursor set) = spreadsIn schema cursor set
  | [] => rfl
  | selection :: rest => by
    rw [stopsIn, spreadsIn, visitsIn, stopSpreads_append, spreadNames_append]
    rw [stopSpreads_stopsOf selection, stopSpreads_stopsIn rest, spreadsIn]

end

end Visits

/-! ## 2. Tours -/

/-- The stops in a fragment. -/
def fragmentStops (context : Context) (fragment : Fragment) : List Stop :=
  stopsIn context.schema fragment.typeCondition fragment.selections

/-- The stops of a walk with the stops of each fragment after its first spread. The other spreads
are left out; `seen` are the fragments that were spread before. -/
def tour (context : Context) (seen : List Name) : List Stop → List Stop
  | [] => []
  | .field field :: rest => .field field :: tour context seen rest
  | .spread name :: rest =>
    match _hf : context.fragment? name with
    | none => tour context seen rest
    | some fragment =>
      if _hn : name ∈ seen then tour context seen rest
      else .spread name :: tour context (name :: seen) (fragmentStops context fragment ++ rest)
termination_by stops => ((offStack context seen).length, stops.length)
decreasing_by
  · exact Prod.Lex.right _ (by simp)
  · exact Prod.Lex.right _ (by simp)
  · exact Prod.Lex.right _ (by simp)
  · exact Prod.Lex.left _ _ (length_offStack_cons_lt _hf _hn)

section Tour

variable {context : Context} {seen : List Name} {name : Name} {fragment : Fragment}
  {rest : List Stop}

@[simp] theorem tour_nil : tour context seen [] = [] := by rw [tour]

@[simp] theorem tour_field (field : Occurrence) :
    tour context seen (.field field :: rest) = .field field :: tour context seen rest := by
  rw [tour]

theorem tour_unknown (hf : context.fragment? name = none) :
    tour context seen (.spread name :: rest) = tour context seen rest := by
  rw [tour]
  split
  · rfl
  · simp_all

theorem tour_again (hn : name ∈ seen) :
    tour context seen (.spread name :: rest) = tour context seen rest := by
  rw [tour]
  split
  · rfl
  · rw [dif_pos hn]

theorem tour_first (hf : context.fragment? name = some fragment) (hn : name ∉ seen) :
    tour context seen (.spread name :: rest) =
      .spread name :: tour context (name :: seen) (fragmentStops context fragment ++ rest) := by
  rw [tour]
  split
  · simp_all
  · next found hf' =>
    cases hf.symm.trans hf'
    rw [dif_neg hn]

end Tour

/-- The fields in a fragment, spreads being left alone. -/
def bodyFields (context : Context) (name : Name) : List Occurrence :=
  match context.fragment? name with
  | some fragment => visitedFields context.schema fragment.typeCondition fragment.selections
  | none => []

theorem Reachable.from_all {context : Context} {names wider : List Name} {name : Name}
    (h : Reachable context names name)
    (hw : ∀ inner ∈ names, Reachable context wider inner) : Reachable context wider name := by
  induction h with
  | direct hn => exact hw _ hn
  | through _ hs ih => exact .through ih hs

/-- What a tour adds to the stops that it starts with. -/
structure Tours (context : Context) (seen : List Name) (stops found : List Stop) : Prop where
  /-- No fragment is toured twice, and none that was seen. -/
  nodup : (stopSpreads found).Nodup
  fresh : ∀ name ∈ stopSpreads found, name ∉ seen
  /-- The fields of each fragment are added once. -/
  fields : (stopFields found).Perm
    (stopFields stops ++ (stopSpreads found).flatMap (bodyFields context))
  /-- A fragment is toured if it can be reached, and if it is spread where the tour comes. -/
  reachable : ∀ name ∈ stopSpreads found,
    (context.fragment? name).isSome ∧ Reachable context (stopSpreads stops) name
  direct : ∀ name ∈ stopSpreads stops, (context.fragment? name).isSome →
    name ∈ seen ∨ name ∈ stopSpreads found
  closed : ∀ name ∈ stopSpreads found, ∀ inner, Spreads context name inner →
    (context.fragment? inner).isSome → inner ∈ seen ∨ inner ∈ stopSpreads found

theorem tours_tour (context : Context) (seen : List Name) (stops : List Stop) :
    Tours context seen stops (tour context seen stops) := by
  fun_induction tour context seen stops with
  | case1 seen => constructor <;> simp
  | case2 seen field rest ih =>
    exact ⟨ih.nodup, ih.fresh, by simpa using ih.fields, ih.reachable, ih.direct, ih.closed⟩
  | case3 seen name rest hf ih =>
    refine ⟨ih.nodup, ih.fresh, by simpa using ih.fields, fun other ho => ?_,
      fun other ho hs => ?_, ih.closed⟩
    · obtain ⟨hs, hr⟩ := ih.reachable other ho
      exact ⟨hs, hr.mono fun _ => List.mem_cons_of_mem _⟩
    · rcases List.mem_cons.mp ho with rfl | ho
      · simp [hf] at hs
      · exact ih.direct other ho hs
  | case4 seen name rest fragment hf hn ih =>
    refine ⟨ih.nodup, ih.fresh, by simpa using ih.fields, fun other ho => ?_,
      fun other ho hs => ?_, ih.closed⟩
    · obtain ⟨hs, hr⟩ := ih.reachable other ho
      exact ⟨hs, hr.mono fun _ => List.mem_cons_of_mem _⟩
    · rcases List.mem_cons.mp ho with rfl | ho
      · exact .inl hn
      · exact ih.direct other ho hs
  | case5 seen name rest fragment hf hn ih =>
    have hbody : bodyFields context name =
        visitedFields context.schema fragment.typeCondition fragment.selections := by
      simp only [bodyFields, hf]
    have hinner : ∀ inner, Spreads context name inner →
        inner ∈ stopSpreads (fragmentStops context fragment ++ rest) := by
      rintro inner ⟨fragment', hf', hm⟩
      cases hf.symm.trans hf'
      rw [stopSpreads_append, fragmentStops, stopSpreads_stopsIn]
      exact List.mem_append_left _ hm
    -- What is spread below is seen by now, or it is this fragment, or it comes later in the tour.
    have hlater : ∀ inner, inner ∈ name :: seen ∨
        inner ∈ stopSpreads (tour context (name :: seen) (fragmentStops context fragment ++ rest)) →
        inner ∈ seen ∨ inner ∈ name ::
          stopSpreads (tour context (name :: seen) (fragmentStops context fragment ++ rest)) := by
      rintro inner (hm | hm)
      · rcases List.mem_cons.mp hm with rfl | hm
        · exact .inr List.mem_cons_self
        · exact .inl hm
      · exact .inr (List.mem_cons_of_mem _ hm)
    constructor
    case nodup =>
      refine List.nodup_cons.mpr ⟨fun hm => ?_, ih.nodup⟩
      exact ih.fresh name hm List.mem_cons_self
    case fresh =>
      intro other ho hs
      rcases List.mem_cons.mp ho with rfl | ho
      · exact hn hs
      · exact ih.fresh other ho (List.mem_cons_of_mem _ hs)
    case fields =>
      have hstops := ih.fields
      rw [stopFields_append] at hstops
      simp only [stopFields_spread, stopSpreads_spread, List.flatMap_cons, hbody]
      refine hstops.trans ?_
      rw [List.append_assoc]
      refine ((stopFields_perm_in fragment.selections).append_right _).trans ?_
      exact List.perm_append_comm_assoc _ _ _
    case reachable =>
      intro other ho
      have hself : Reachable context (stopSpreads (.spread name :: rest)) name :=
        .direct List.mem_cons_self
      rcases List.mem_cons.mp ho with rfl | ho
      · exact ⟨by simp [hf], hself⟩
      · obtain ⟨hs, hr⟩ := ih.reachable other ho
        refine ⟨hs, hr.from_all fun inner hi => ?_⟩
        rw [stopSpreads_append, fragmentStops, stopSpreads_stopsIn] at hi
        rcases List.mem_append.mp hi with hi | hi
        · exact .through hself ⟨fragment, hf, hi⟩
        · exact .direct (List.mem_cons_of_mem _ hi)
    case direct =>
      intro other ho hs
      refine hlater other ?_
      rcases List.mem_cons.mp ho with rfl | ho
      · exact .inl List.mem_cons_self
      · refine ih.direct other ?_ hs
        rw [stopSpreads_append]
        exact List.mem_append_right _ ho
    case closed =>
      intro other ho inner hs hd
      refine hlater inner ?_
      rcases List.mem_cons.mp ho with rfl | ho
      · exact ih.direct inner (hinner inner hs) hd
      · exact ih.closed other ho inner hs hd

/-! ## 3. The order of fields -/

/-- The stops of a walk from the start. -/
def tourOf (context : Context) (cursor : Name) (set : List Selection) : List Stop :=
  tour context [] (stopsIn context.schema cursor set)

/-- The fields that a walk comes to, in the order in which it is done with them. -/
def fieldOrder (context : Context) (cursor : Name) (set : List Selection) : List Occurrence :=
  stopFields (tourOf context cursor set)

/-- The fragments that a walk comes to, in the order of their first spreads. -/
def spreadOrder (context : Context) (cursor : Name) (set : List Selection) : List Name :=
  stopSpreads (tourOf context cursor set)

section Orders

variable (context : Context) (cursor : Name) (set : List Selection)

theorem nodup_spreadOrder : (spreadOrder context cursor set).Nodup :=
  (tours_tour context [] _).nodup

/-- The fragments of a walk are those that are reached. -/
theorem mem_spreadOrder_iff (name : Name) :
    name ∈ spreadOrder context cursor set ↔
      (context.fragment? name).isSome ∧
        Reachable context (spreadsIn context.schema cursor set) name := by
  have tours := tours_tour context [] (stopsIn context.schema cursor set)
  have hspreads : stopSpreads (stopsIn context.schema cursor set) =
      spreadsIn context.schema cursor set := stopSpreads_stopsIn set
  constructor
  · intro hm
    rw [← hspreads]
    exact tours.reachable name hm
  · rintro ⟨hf, hr⟩
    have hseen : ∀ inner, inner ∈ ([] : List Name) ∨ inner ∈ spreadOrder context cursor set →
        inner ∈ spreadOrder context cursor set := by
      rintro inner (hm | hm)
      · cases hm
      · exact hm
    induction hr with
    | direct hn =>
      rw [← hspreads] at hn
      exact hseen _ (tours.direct _ hn hf)
    | through _ hs ih =>
      obtain ⟨fragment, hf', -⟩ := id hs
      exact hseen _ (tours.closed _ (ih (Option.isSome_of_eq_some hf')) _ hs hf)

/-- **The fields of a walk** are those of its selections and, once each, those of the fragments that
are reached. -/
theorem fieldOrder_perm :
    (fieldOrder context cursor set).Perm
      (visitedFields context.schema cursor set ++
        (spreadOrder context cursor set).flatMap (bodyFields context)) :=
  (tours_tour context [] _).fields.trans ((stopFields_perm_in set).append_right _)

end Orders

end MockGraph.Walk
