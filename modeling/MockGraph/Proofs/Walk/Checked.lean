import MockGraph.Proofs.Validation.UnusedScalars
import MockGraph.Proofs.Walk.Progress

/-!
# `Proofs/Walk/Checked`: walks with a schema that was checked

A walk takes the same course with a schema and with what is left of it after the check, and it comes
to the same end but for one kind of failure: that a built-in scalar has no such field becomes that
there is no such type, if nothing in the schema refers to the scalar (`Runs.checked`,
`walkOperation_checked`). A resolver is asked for the same types in both cases.
-/

set_option autoImplicit false

namespace MockGraph

open Syntax TypeSystem

/-! ## 1. Failures -/

@[simp] theorem mapError_ok {ε ε' α : Type} (rename : ε → ε') (a : α) :
    (Except.ok a).mapError rename = .ok a := rfl

@[simp] theorem mapError_error {ε ε' α : Type} (rename : ε → ε') (e : ε) :
    (Except.error e : Except ε α).mapError rename = .error (rename e) := rfl

/-- What becomes of a disagreement when a schema is checked. -/
def Mismatch.afterCheck (schema : TypeSystem) : Mismatch → Mismatch
  | .invalidField field type =>
    if schema.drops type then .unknownType type else .invalidField field type
  | mismatch => mismatch

/-- What becomes of the failure of a walk when a schema is checked. -/
def WalkError.afterCheck (schema : TypeSystem) : WalkError → WalkError
  | .mismatch cause => .mismatch (cause.afterCheck schema)
  | error => error

/-- What becomes of a failure when a schema is checked. -/
def Failure.afterCheck (schema : TypeSystem) : Failure → Failure
  | .mismatch cause => .mismatch (cause.afterCheck schema)
  | failure => failure

theorem WalkError.failure_afterCheck (schema : TypeSystem) (error : WalkError) :
    (error.afterCheck schema).failure = error.failure.afterCheck schema := by
  cases error <;> rfl

/-- A disagreement changes in one case only. -/
theorem Mismatch.afterCheck_cases (schema : TypeSystem) (mismatch : Mismatch) :
    mismatch.afterCheck schema = mismatch ∨
      ∃ field type, schema.drops type = true ∧ mismatch = .invalidField field type ∧
        mismatch.afterCheck schema = .unknownType type := by
  cases mismatch with
  | invalidField field type =>
    by_cases hd : schema.drops type = true
    · exact .inr ⟨field, type, hd, rfl, by simp [afterCheck, hd]⟩
    · exact .inl (by simp [afterCheck, hd])
  | unknownType | invalidType | missingRoot => exact .inl rfl

/-! ## 2. Look-ups -/

namespace Walk

section LookUps

variable {schema : TypeSystem} {cursor name : Name}

theorem target_eq (schema : TypeSystem) (cursor name : Name) :
    target schema cursor name =
      match schema.field cursor name with
      | .error mismatch => .error mismatch
      | .ok definition =>
        match schema.kind? definition.type.innerName with
        | some kind =>
          .ok ⟨definition.type.innerName, kind, (FieldType.ofTypeRef definition.type).unwrap.2⟩
        | none => .error (.unknownType definition.type.innerName) := by
  cases hf : schema.field cursor name with
  | error mismatch => simp [target, TypeSystem.fieldType, hf, Except.map, bind, Except.bind]
  | ok definition =>
    cases hk : schema.kind? definition.type.innerName with
    | some kind => simp only [target_of_field hf hk, hk]
    | none =>
      have ht : schema.fieldType cursor name = .ok (FieldType.ofTypeRef definition.type) := by
        rw [TypeSystem.fieldType, hf]
        rfl
      simp only [target, ht, bind, Except.bind, FieldType.innerName_ofTypeRef, hk]
      rfl

/-- A name that keeps its meaning has no field only if it is that of a type. -/
theorem drops_of_invalidField {field type : Name} (h : schema.Keeps cursor)
    (hf : schema.field cursor name = .error (.invalidField field type)) :
    schema.drops type = false := by
  unfold TypeSystem.field at hf
  split at hf
  · cases hf
  next found hfound =>
  split at hf
  · cases hf
    refine Bool.eq_false_iff.mpr fun hd => ?_
    rw [Keeps, type?_checked, hd, hfound] at h
    cases h
  · cases hf

/-- What a field leads to is the same, and so is the failure but for its kind. -/
theorem target_checked (hs : schema.Standard) (hr : schema.HasObjectRoots) (cursor name : Name) :
    target schema.withoutUnusedScalars cursor name =
      (target schema cursor name).mapError (·.afterCheck schema) := by
  rw [target_eq, target_eq]
  by_cases h : schema.Keeps cursor
  · rw [field_checked h]
    cases hf : schema.field cursor name with
    | ok definition =>
      simp only [kind?_checked (hs.keeps_field hf).1]
      cases schema.kind? definition.type.innerName <;> rfl
    | error mismatch =>
      cases mismatch with
      | invalidField field type =>
        simp [Mismatch.afterCheck, drops_of_invalidField h hf]
      | unknownType | invalidType | missingRoot => rfl
  · obtain ⟨hbefore, hafter⟩ := hs.field_of_not_keeps hr h name
    have hd : schema.drops cursor = true := Bool.of_not_eq_false fun hd => h (keeps_of_not_drops hd)
    simp [hbefore, hafter, Mismatch.afterCheck, hd]

/-- A field that leads to a type leads to one whose name keeps its meaning. -/
theorem keeps_of_target (hs : schema.Standard) {found : Target}
    (ht : target schema cursor name = .ok found) : schema.Keeps found.name := by
  rw [target_eq] at ht
  cases hf : schema.field cursor name with
  | error mismatch =>
    rw [hf] at ht
    cases ht
  | ok definition =>
    simp only [hf] at ht
    split at ht
    · cases ht
      exact (hs.keeps_field hf).1
    · cases ht

theorem leafSample_checked {type : Name} (h : schema.Keeps type) (kind : TypeKind) (field : Name) :
    leafSample schema.withoutUnusedScalars kind type field = leafSample schema kind type field := by
  unfold leafSample firstEnumValue?
  rw [h]

end LookUps

/-! ## 3. Walks -/

section Walks

variable {schema : TypeSystem} {registry : Registry} {fragments : List Fragment}

/-- Every derivation with a schema is one after the check too, but for the kind of failure. -/
theorem Runs.checked (hs : schema.Standard) (hr : schema.HasObjectRoots) {task : Task}
    {state after : State} {result : Except WalkError Json.Object}
    (h : Runs ⟨schema, registry, fragments⟩ task state result after) :
    Runs ⟨schema.withoutUnusedScalars, registry, fragments⟩ task state
      (result.mapError (·.afterCheck schema)) after := by
  -- A derivation reads the schema where it looks up a field, and in the sample of a leaf.
  have htarget : ∀ {cursor name found}, target schema cursor name = .ok found →
      target schema.withoutUnusedScalars cursor name = .ok found := by
    intro cursor name found ht
    rw [target_checked hs hr, ht]
    rfl
  induction h with
  | typename hn => exact .typename hn
  | lookupFails hn ht =>
    refine .lookupFails hn ?_
    rw [target_checked hs hr, ht]
    rfl
  | leaf hn ht hk hi hresolve =>
    rw [← leafSample_checked (keeps_of_target hs ht)]
    exact .leaf hn (htarget ht) hk hi hresolve
  | composite hn ht hk _ hresolve ih => exact .composite hn (htarget ht) hk ih hresolve
  | compositeFails hn ht hk _ ih => exact .compositeFails hn (htarget ht) hk ih
  | input hn ht hk => exact .input hn (htarget ht) hk
  | fragment _ ih => exact .fragment ih
  | inline _ ih => exact .inline ih
  | nil => exact .nil
  | cons _ _ ihw ihs => exact .cons ihw ihs
  | consFails _ ih => exact .consFails ih
  | unknown hf => exact .unknown hf
  | again hf hp => exact .again hf hp
  | cyclic hf hp => exact .cyclic hf hp
  | first hf hp _ ih => exact .first hf hp ih
  | firstFails hf hp _ ih => exact .firstFails hf hp ih

theorem perform_checked (hs : schema.Standard) (hr : schema.HasObjectRoots) (cursor : Name)
    (set : List Selection) (calls : Calls) :
    perform ⟨schema.withoutUnusedScalars, registry, fragments⟩ cursor set calls =
      ((perform ⟨schema, registry, fragments⟩ cursor set calls).1.mapError (·.afterCheck schema),
        (perform ⟨schema, registry, fragments⟩ cursor set calls).2) := by
  obtain ⟨after, hbefore, hcalls⟩ := runs_perform ⟨schema, registry, fragments⟩ cursor set calls
  obtain ⟨after', hafter, hcalls'⟩ :=
    runs_perform ⟨schema.withoutUnusedScalars, registry, fragments⟩ cursor set calls
  obtain ⟨hresult, hsame⟩ := hafter.unique (hbefore.checked hs hr)
  exact Prod.ext hresult (by rw [← hcalls, ← hcalls', hsame])

end Walks

end Walk

/-- The walk of an operation comes to the same end after the check, but for the kind of failure. -/
theorem walkOperation_checked {schema : TypeSystem} (hs : schema.Standard)
    (hr : schema.HasObjectRoots) (document : Document) (operation : Operation)
    (registry : Registry) (root : Name) (calls : Calls) :
    walkOperation document operation registry schema.withoutUnusedScalars root calls =
      ((walkOperation document operation registry schema root calls).1.mapError
          (·.afterCheck schema),
        (walkOperation document operation registry schema root calls).2) := by
  simp only [walkOperation, Walk.perform_checked hs hr]
  cases (Walk.perform ⟨schema, registry, document.fragments⟩ root operation.selections calls).1 with
  | ok mock => rfl
  | error error =>
    exact congrArg (fun failure => (Except.error failure, _)) (error.failure_afterCheck schema)

end MockGraph
