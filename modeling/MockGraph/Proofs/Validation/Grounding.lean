import MockGraph.Proofs.Validation.UnusedScalars
import MockGraph.Validation.Deferral

/-!
# `Proofs/Validation/Grounding`: selections that mean the same after a schema is checked

What a document names by itself are the types of its conditions. Selections are grounded if these
types are the same before and after the schema is checked. Such selections are judged alike by both
schemas (`selectionsViolations_checked`), and the same fields are left out of them as fields on types
that are not defined (`resolvedIn_checked`).

A document whose selections pass the rules with the checked schema has only grounded ones
(`groundedIn_of_violations`). Of a fragment that no operation reaches nothing is known; but what it
spreads and what it defers is the same in any case.
-/

set_option autoImplicit false

namespace MockGraph

open Syntax TypeSystem

mutual

/-- Whether the conditions in a selection on the type `outer` keep their meaning. -/
def Grounded (schema : TypeSystem) (outer : Name) : Selection → Prop
  | .field _ name _ _ nested => ∀ definition, schema.field outer name = .ok definition →
    GroundedIn schema definition.type.innerName nested
  | .spread _ _ => True
  | .inline condition _ nested =>
    schema.Keeps (condition.getD outer) ∧ GroundedIn schema (condition.getD outer) nested

def GroundedIn (schema : TypeSystem) (outer : Name) : List Selection → Prop
  | [] => True
  | selection :: rest => Grounded schema outer selection ∧ GroundedIn schema outer rest

end

section Selections

variable {schema : TypeSystem} {fragments : List Fragment} {scope : List VariableDefinition}
  {outer : Name}

theorem groundedIn_append (first rest : List Selection) :
    GroundedIn schema outer (first ++ rest) ↔
      GroundedIn schema outer first ∧ GroundedIn schema outer rest := by
  induction first with
  | nil => simp [GroundedIn]
  | cons selection first ih => rw [List.cons_append, GroundedIn, GroundedIn, ih, and_assoc]

theorem grounded_of_mem {selection : Selection} {set : List Selection}
    (h : GroundedIn schema outer set) (hm : selection ∈ set) : Grounded schema outer selection := by
  induction set with
  | nil => cases hm
  | cons first rest ih =>
    rcases List.mem_cons.mp hm with rfl | hm
    · exact h.1
    · exact ih h.2 hm

/-! ## 1. Conditions -/

/-- A condition that passes the rules with the checked schema is a composite type there. -/
theorem keeps_of_conditionViolations {condition : Name}
    (h : conditionViolations schema.withoutUnusedScalars condition = []) :
    schema.Keeps condition := by
  unfold conditionViolations at h
  split at h
  · cases h
  · next type ht => exact keeps_of_type? ht

theorem conditionViolations_checked {condition : Name} (h : schema.Keeps condition) :
    conditionViolations schema.withoutUnusedScalars condition =
      conditionViolations schema condition := by
  rw [conditionViolations, conditionViolations, h]

/-- The schemas have the same object types. -/
theorem possibleTypes_checked (hs : schema.Standard) (type : TypeDefinition) :
    schema.withoutUnusedScalars.possibleTypes type = schema.possibleTypes type := by
  unfold possibleTypes
  cases type.kind with
  | interface =>
    -- The types that are dropped are scalars, and a scalar is no possible type.
    simp only [withoutUnusedScalars, List.filter_filter]
    refine congrArg (List.map _) (List.filter_congr fun other hm => ?_)
    by_cases hk : other.kind = .object
    · cases hb : BuiltIn.isScalar other.name with
      | false => simp
      | true =>
        rw [hs.scalars other hm hb] at hk
        cases hk
    · simp [hk]
  | _ => rfl

theorem overlap_checked (hs : schema.Standard) (condition type : TypeDefinition) :
    schema.withoutUnusedScalars.overlap condition type = schema.overlap condition type := by
  rw [overlap, overlap, possibleTypes_checked hs, possibleTypes_checked hs]

/-- Whether a condition can apply is judged alike, also for one that loses its meaning: it is that of
a scalar before, and says nothing in either case. -/
theorem spreadViolations_checked (hs : schema.Standard) (h : schema.Keeps outer)
    (condition : Name) : spreadViolations schema.withoutUnusedScalars outer condition =
      spreadViolations schema outer condition := by
  unfold spreadViolations
  by_cases hc : schema.Keeps condition
  · rw [h, hc]
    simp only [overlap_checked hs]
  · obtain ⟨hnone, type, ht, -, hscalar⟩ := hs.scalar_of_not_keeps hc
    have hcomposite : type.isComposite = false := by simp [TypeDefinition.isComposite, hscalar]
    rw [hnone, ht]
    cases schema.type? outer with
    | none => cases schema.withoutUnusedScalars.type? outer <;> rfl
    | some found =>
      cases schema.withoutUnusedScalars.type? outer <;> simp [hcomposite, findingIf]

/-! ## 2. Selections that pass the rules -/

theorem fieldUseViolations_checked {definition : FieldDefinition}
    (h : schema.Keeps definition.type.innerName ∧
      ∀ input ∈ definition.arguments, schema.Keeps input.type.innerName)
    (arguments : List Argument) (nested : List Selection) :
    fieldUseViolations schema.withoutUnusedScalars scope definition arguments nested =
      fieldUseViolations schema scope definition arguments nested := by
  unfold fieldUseViolations nestingViolations
  rw [argumentViolations_checked scope definition.name h.2, h.1]

mutual

theorem grounded_of_violations (hs : schema.Standard) {outer : Name} (h : schema.Keeps outer) :
    ∀ {selection},
      selectionViolations schema.withoutUnusedScalars fragments scope outer selection = [] →
      Grounded schema outer selection
  | .field alias? name arguments directives nested, hv => by
    intro definition hf
    rw [selectionViolations, field_checked h, hf] at hv
    exact groundedIn_of_violations hs (hs.keeps_field hf).1
      (List.append_eq_nil_iff.mp (List.append_eq_nil_iff.mp hv).2).2
  | .spread name directives, _ => trivial
  | .inline none directives nested, hv => by
    rw [selectionViolations] at hv
    exact ⟨h, groundedIn_of_violations hs h (List.append_eq_nil_iff.mp hv).2⟩
  | .inline (some condition) directives nested, hv => by
    rw [selectionViolations] at hv
    obtain ⟨hv, hnested⟩ := List.append_eq_nil_iff.mp hv
    have hc : schema.Keeps condition :=
      keeps_of_conditionViolations (List.append_eq_nil_iff.mp (List.append_eq_nil_iff.mp hv).1).2
    exact ⟨hc, groundedIn_of_violations hs hc hnested⟩

/-- What passes the rules with the checked schema is grounded. -/
theorem groundedIn_of_violations (hs : schema.Standard) {outer : Name} (h : schema.Keeps outer) :
    ∀ {set}, selectionsViolations schema.withoutUnusedScalars fragments scope outer set = [] →
      GroundedIn schema outer set
  | [], _ => trivial
  | selection :: rest, hv => by
    rw [selectionsViolations] at hv
    obtain ⟨hv, hrest⟩ := List.append_eq_nil_iff.mp hv
    exact ⟨grounded_of_violations hs h hv, groundedIn_of_violations hs h hrest⟩

end

mutual

theorem selectionViolations_checked (hs : schema.Standard) {outer : Name} (h : schema.Keeps outer) :
    ∀ selection, Grounded schema outer selection →
      selectionViolations schema.withoutUnusedScalars fragments scope outer selection =
        selectionViolations schema fragments scope outer selection
  | .field alias? name arguments directives nested, hg => by
    rw [selectionViolations, selectionViolations, field_checked h, directiveViolations_checked]
    cases hf : schema.field outer name with
    | error mismatch => rfl
    | ok definition =>
      have hdefinition := hs.keeps_field hf
      simp only [fieldUseViolations_checked hdefinition,
        selectionsViolations_checked hs hdefinition.1 nested (hg definition hf)]
  | .spread name directives, _ => by
    rw [selectionViolations, selectionViolations, directiveViolations_checked]
    cases fragmentNamed? fragments name with
    | none => rfl
    | some fragment => simp only [spreadViolations_checked hs h]
  | .inline none directives nested, hg => by
    rw [selectionViolations, selectionViolations, directiveViolations_checked,
      selectionsViolations_checked hs h nested hg.2]
  | .inline (some condition) directives nested, hg => by
    have hc : schema.Keeps condition := hg.1
    rw [selectionViolations, selectionViolations, directiveViolations_checked,
      conditionViolations_checked hc, spreadViolations_checked hs h,
      selectionsViolations_checked hs hc nested hg.2]

/-- Grounded selections are judged alike. -/
theorem selectionsViolations_checked (hs : schema.Standard) {outer : Name}
    (h : schema.Keeps outer) : ∀ set, GroundedIn schema outer set →
      selectionsViolations schema.withoutUnusedScalars fragments scope outer set =
        selectionsViolations schema fragments scope outer set
  | [], _ => rfl
  | selection :: rest, hg => by
    rw [selectionsViolations, selectionsViolations, selectionViolations_checked hs h selection hg.1,
      selectionsViolations_checked hs h rest hg.2]

end

/-! ## 3. Fields on types that are not defined -/

mutual

theorem resolved_checked (hs : schema.Standard) {outer : Name} (h : schema.Keeps outer) :
    ∀ selection : Selection,
      GroundedIn schema outer (selection.resolved schema.withoutUnusedScalars outer) →
      selection.resolved schema outer = selection.resolved schema.withoutUnusedScalars outer
  | .field alias? name arguments directives nested, hg => by
    rw [Selection.resolved, field_checked h] at hg
    rw [Selection.resolved, Selection.resolved, field_checked h]
    cases hf : schema.field outer name with
    | error mismatch => cases mismatch <;> rfl
    | ok definition =>
      rw [hf] at hg
      simp only [resolvedIn_checked hs (hs.keeps_field hf).1 nested (hg.1 definition hf)]
  | .spread name directives, _ => rfl
  | .inline condition directives nested, hg => by
    rw [Selection.resolved] at hg
    rw [Selection.resolved, Selection.resolved, resolvedIn_checked hs hg.1.1 nested hg.1.2]

/-- From selections that end up grounded the same fields are left out. -/
theorem resolvedIn_checked (hs : schema.Standard) {outer : Name} (h : schema.Keeps outer) :
    ∀ set : List Selection,
      GroundedIn schema outer (Selection.resolvedIn schema.withoutUnusedScalars outer set) →
      Selection.resolvedIn schema outer set =
        Selection.resolvedIn schema.withoutUnusedScalars outer set
  | [], _ => rfl
  | selection :: rest, hg => by
    rw [Selection.resolvedIn, groundedIn_append] at hg
    rw [Selection.resolvedIn, Selection.resolvedIn, resolved_checked hs h selection hg.1,
      resolvedIn_checked hs h rest hg.2]

end

theorem spreadsIn_append (first rest : List Selection) :
    Selection.spreadsIn (first ++ rest) = Selection.spreadsIn first ++ Selection.spreadsIn rest := by
  induction first with
  | nil => rfl
  | cons selection first ih =>
    rw [List.cons_append, Selection.spreadsIn, Selection.spreadsIn, ih, List.append_assoc]

theorem spreadsIn_singleton (selection : Selection) :
    Selection.spreadsIn [selection] = selection.spreads := by
  rw [Selection.spreadsIn, Selection.spreadsIn, List.append_nil]

theorem deferralsIn_append (schema : TypeSystem) (outer : Name) (first rest : List Selection) :
    Selection.deferralsIn schema outer (first ++ rest) =
      Selection.deferralsIn schema outer first ++ Selection.deferralsIn schema outer rest := by
  induction first with
  | nil => rfl
  | cons selection first ih =>
    rw [List.cons_append, Selection.deferralsIn, Selection.deferralsIn, ih, List.append_assoc]

theorem deferralsIn_singleton (schema : TypeSystem) (outer : Name) (selection : Selection) :
    Selection.deferralsIn schema outer [selection] = selection.deferrals schema outer := by
  rw [Selection.deferralsIn, Selection.deferralsIn, List.append_nil]

mutual

theorem spreads_resolved_checked (hs : schema.Standard) (hr : schema.HasObjectRoots) (outer : Name) :
    ∀ selection : Selection, Selection.spreadsIn (selection.resolved schema outer) =
      Selection.spreadsIn (selection.resolved schema.withoutUnusedScalars outer)
  | .field alias? name arguments directives nested => by
    rw [Selection.resolved, Selection.resolved]
    by_cases h : schema.Keeps outer
    · rw [field_checked h]
      cases schema.field outer name with
      | error mismatch => cases mismatch <;> rfl
      | ok definition =>
        rw [spreadsIn_singleton, spreadsIn_singleton, Selection.spreads, Selection.spreads]
        exact spreadsIn_resolvedIn_checked hs hr _ nested
    · -- A field on such a scalar is not known, or left out: nothing in it counts in either case.
      obtain ⟨hbefore, hafter⟩ := hs.field_of_not_keeps hr h name
      rw [hbefore, hafter]
      rfl
  | .spread name directives => rfl
  | .inline condition directives nested => by
    rw [Selection.resolved, Selection.resolved, spreadsIn_singleton, spreadsIn_singleton,
      Selection.spreads, Selection.spreads]
    exact spreadsIn_resolvedIn_checked hs hr _ nested

/-- What selections spread does not depend on which fields are left out. -/
theorem spreadsIn_resolvedIn_checked (hs : schema.Standard) (hr : schema.HasObjectRoots)
    (outer : Name) : ∀ set : List Selection,
      Selection.spreadsIn (Selection.resolvedIn schema outer set) =
        Selection.spreadsIn (Selection.resolvedIn schema.withoutUnusedScalars outer set)
  | [] => rfl
  | selection :: rest => by
    rw [Selection.resolvedIn, Selection.resolvedIn, spreadsIn_append, spreadsIn_append,
      spreads_resolved_checked hs hr outer selection, spreadsIn_resolvedIn_checked hs hr outer rest]

end

mutual

theorem deferrals_resolved_checked (hs : schema.Standard) (hr : schema.HasObjectRoots)
    (outer : Name) : ∀ selection : Selection,
      Selection.deferralsIn schema outer (selection.resolved schema outer) =
        Selection.deferralsIn schema.withoutUnusedScalars outer
          (selection.resolved schema.withoutUnusedScalars outer)
  | .field alias? name arguments directives nested => by
    rw [Selection.resolved, Selection.resolved]
    by_cases h : schema.Keeps outer
    · rw [field_checked h]
      cases hf : schema.field outer name with
      | error mismatch =>
        cases mismatch <;>
          simp [Selection.deferralsIn, Selection.deferrals, field_checked h, hf]
      | ok definition =>
        rw [deferralsIn_singleton, deferralsIn_singleton, Selection.deferrals, Selection.deferrals,
          field_checked h, hf]
        exact deferralsIn_resolvedIn_checked hs hr _ nested
    · obtain ⟨hbefore, hafter⟩ := hs.field_of_not_keeps hr h name
      rw [hbefore, hafter, deferralsIn_singleton, Selection.deferrals, hbefore]
      rfl
  | .spread name directives => rfl
  | .inline condition directives nested => by
    rw [Selection.resolved, Selection.resolved, deferralsIn_singleton, deferralsIn_singleton,
      Selection.deferrals, Selection.deferrals, deferralsIn_resolvedIn_checked hs hr _ nested]

/-- What selections defer does not depend on which fields are left out. -/
theorem deferralsIn_resolvedIn_checked (hs : schema.Standard) (hr : schema.HasObjectRoots)
    (outer : Name) : ∀ set : List Selection,
      Selection.deferralsIn schema outer (Selection.resolvedIn schema outer set) =
        Selection.deferralsIn schema.withoutUnusedScalars outer
          (Selection.resolvedIn schema.withoutUnusedScalars outer set)
  | [] => rfl
  | selection :: rest => by
    rw [Selection.resolvedIn, Selection.resolvedIn, deferralsIn_append, deferralsIn_append,
      deferrals_resolved_checked hs hr outer selection,
      deferralsIn_resolvedIn_checked hs hr outer rest]

end

end Selections

end MockGraph
