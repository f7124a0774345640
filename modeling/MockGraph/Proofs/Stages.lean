import MockGraph.Proofs.TypeSystem.Standard
import MockGraph.Proofs.Validation.Acceptance
import MockGraph.Proofs.Walk.Calls
import MockGraph.Proofs.Walk.Checked

/-!
# `Proofs/Stages`: which stage of a generation fails

`FailsAt` says at which stage a request fails and with what failure, one rule for each reason; its
premises are that all stages before went well. The failure of a generation is always that of the stage
that fails (`generate_fails_iff`).

Main statement, `rules_only_refuse`: with more rules a request may be refused, but otherwise it goes as
before. What fails before the rules are applied fails as before, and what succeeds with more rules
succeeds with fewer, with the same mock. One thing the rule for schemas does beyond refusing: the
schema that it lets through is without the built-in scalars that nothing refers to, so a failing walk
may miss a type where it missed a field.
-/

set_option autoImplicit false

namespace MockGraph

open Syntax TypeSystem

/-! ## 1. Looking for an operation -/

section Lookup

variable {document : Document}

theorem findOperation_of_nil (ho : document.operations = []) (name? : Option String) :
    findOperation document name? = .error .missingOperation := by
  simp [findOperation, ho]

theorem findOperation_of_unknown {name : String} (ho : document.operations ≠ [])
    (hnone : ∀ operation ∈ document.operations, operation.name ≠ some name) :
    findOperation document (some name) = .error (.unknownOperation name) := by
  cases hs : document.operations with
  | nil => exact absurd hs ho
  | cons first rest =>
    have hf : (first :: rest).find? (·.name = some name) = none :=
      List.find?_eq_none.mpr fun operation hm => by simpa using hnone operation (hs ▸ hm)
    simp only [findOperation, hs, hf]

theorem findOperation_cases (document : Document) (name? : Option String) :
    document.operations = [] ∨
    (∃ name, document.operations ≠ [] ∧ name? = some name ∧
      ∀ operation ∈ document.operations, operation.name ≠ some name) ∨
    ∃ operation, findOperation document name? = .ok operation := by
  cases ho : document.operations with
  | nil => exact .inl rfl
  | cons first rest =>
    right
    cases name? with
    | none => exact .inr ⟨first, by simp [findOperation, ho]⟩
    | some name =>
      cases hf : (first :: rest).find? (·.name = some name) with
      | some operation => exact .inr ⟨operation, by simp only [findOperation, ho, hf]⟩
      | none =>
        refine .inl ⟨name, by simp, rfl, fun operation hm => ?_⟩
        simpa using List.find?_eq_none.mp hf operation hm

end Lookup

/-! ## 2. The rules -/

theorem TypeSystem.checked_of_violations {schema : TypeSystem} (h : schema.violations = []) :
    schema.checked = .ok schema.withoutUnusedScalars := by
  rw [checked, h]

theorem TypeSystem.checked_of_not {schema : TypeSystem} (h : schema.violations ≠ []) :
    schema.checked = .error (schema.violations.map .violation) := by
  unfold checked
  split
  · next hv => exact absurd hv h
  · rfl

theorem SchemaSource.load_of_schema {source : SchemaSource} {schema : TypeSystem}
    (h : source.schema = .ok schema) (rules : Rules) :
    source.load rules =
      if .schema ∈ rules then schema.checked.mapError .invalidSchema else .ok schema := by
  rw [load, h]
  by_cases hr : .schema ∈ rules
  · simp [hr, Except.bind]
  · simp [hr, Except.bind]

theorem checkDocument_of_valid {rules : Rules} {schema : TypeSystem} {document : Document}
    (h : .document ∈ rules → document.violations schema = []) :
    checkDocument rules schema document = .ok () := by
  unfold checkDocument
  split
  · next hr => rw [h (List.contains_iff_mem.mp hr)]
  · rfl

theorem checkDocument_of_not {rules : Rules} {schema : TypeSystem} {document : Document}
    (hr : .document ∈ rules) (h : document.violations schema ≠ []) :
    checkDocument rules schema document =
      .error (.invalidDocument ((document.violations schema).map .violation)) := by
  unfold checkDocument
  rw [if_pos (List.contains_iff_mem.mpr hr)]
  split
  · next hv => exact absurd hv h
  · rfl

/-! ## 3. Stages -/

/-- The stages of a generation in their order. -/
inductive Stage where
  | lookup
  | acquisition
  | building
  | schemaCheck
  | documentCheck
  | root
  | walk
  deriving DecidableEq

namespace MockRequest

/-- A request finds its operation. -/
abbrev Finds (request : MockRequest) (operation : Operation) : Prop :=
  findOperation request.document request.operation = .ok operation

/-- A request finds its operation and has a schema, which is not checked yet. -/
structure Builds (request : MockRequest) (operation : Operation) (schema : TypeSystem) : Prop where
  finds : request.Finds operation
  built : ∃ source, request.acquired = .ok source ∧ source.schema = .ok schema

/-- A request goes on with a schema, after the rules for schemas. -/
inductive Loads (request : MockRequest) (operation : Operation) : TypeSystem → Prop where
  | unchecked {schema} (hb : request.Builds operation schema) (hr : .schema ∉ request.rules) :
    Loads request operation schema
  | checked {schema} (hb : request.Builds operation schema) (hr : .schema ∈ request.rules)
    (hv : schema.violations = []) : Loads request operation schema.withoutUnusedScalars

/-- A request goes on with a schema, after the rules for documents. -/
structure Checks (request : MockRequest) (operation : Operation) (schema : TypeSystem) : Prop where
  loads : request.Loads operation schema
  valid : .document ∈ request.rules → request.document.violations schema = []

/-- A request fails at a stage, after all stages before went well. -/
inductive FailsAt (request : MockRequest) (registry : Registry) (calls : Calls) :
    Stage → Failure → Prop where
  | noOperation (ho : request.document.operations = []) :
    FailsAt request registry calls .lookup .missingOperation
  | unknownOperation {name} (ho : request.document.operations ≠ [])
    (hn : request.operation = some name)
    (hnone : ∀ operation ∈ request.document.operations, operation.name ≠ some name) :
    FailsAt request registry calls .lookup (.unknownOperation name)
  | notAcquired {operation cause} (hf : request.Finds operation)
    (ha : request.acquired = .error cause) :
    FailsAt request registry calls .acquisition (.noSchema cause)
  | notBuilt {operation source causes} (hf : request.Finds operation)
    (ha : request.acquired = .ok source) (hb : source.schema = .error causes) :
    FailsAt request registry calls .building (.invalidSchema causes)
  | invalidSchema {operation schema} (hb : request.Builds operation schema)
    (hr : .schema ∈ request.rules) (hv : schema.violations ≠ []) :
    FailsAt request registry calls .schemaCheck
      (.invalidSchema (schema.violations.map .violation))
  | invalidDocument {operation schema} (hl : request.Loads operation schema)
    (hr : .document ∈ request.rules) (hv : request.document.violations schema ≠ []) :
    FailsAt request registry calls .documentCheck
      (.invalidDocument ((request.document.violations schema).map .violation))
  | missingRoot {operation schema} (hc : request.Checks operation schema)
    (hr : schema.root? operation.kind = none) :
    FailsAt request registry calls .root (.mismatch (.missingRoot operation.kind.keyword))
  | walkFails {operation schema root failure} (hc : request.Checks operation schema)
    (hr : schema.root? operation.kind = some root)
    (hw : (walkOperation request.document operation registry schema root calls).1 =
      .error failure) : FailsAt request registry calls .walk failure

/-- A request goes well at every stage. -/
def Succeeds (request : MockRequest) (registry : Registry) (calls : Calls) (json : Json)
    (after : Calls) : Prop :=
  ∃ operation schema root, request.Checks operation schema ∧
    schema.root? operation.kind = some root ∧
    walkOperation request.document operation registry schema root calls = (.ok json, after)

section Start

variable {request : MockRequest} {operation : Operation} {schema : TypeSystem}

theorem Finds.start (h : request.Finds operation) :
    request.start = (do
      let source ← request.acquired.mapError .noSchema
      let (schema, root) ← prepare request.document operation source request.rules
      return (operation, schema, root)) := by
  unfold Finds at h
  rw [MockRequest.start, h]
  rfl

theorem Loads.load (h : request.Loads operation schema) :
    request.Finds operation ∧
      ∃ source, request.acquired = .ok source ∧ source.load request.rules = .ok schema := by
  cases h with
  | unchecked hb hr =>
    obtain ⟨source, ha, hs⟩ := hb.built
    refine ⟨hb.finds, source, ha, ?_⟩
    rw [SchemaSource.load_of_schema hs, if_neg hr]
  | checked hb hr hv =>
    obtain ⟨source, ha, hs⟩ := hb.built
    refine ⟨hb.finds, source, ha, ?_⟩
    rw [SchemaSource.load_of_schema hs, if_pos hr, checked_of_violations hv]
    rfl

/-- What is left after a schema is loaded. -/
theorem Loads.start (h : request.Loads operation schema) :
    request.start = (do
      checkDocument request.rules schema request.document
      let root ← (schema.root operation.kind).mapError .mismatch
      return (operation, schema, root)) := by
  obtain ⟨hf, source, ha, hl⟩ := h.load
  rw [hf.start, ha]
  simp only [mapError_ok, prepare, hl, bind, Except.bind]
  cases checkDocument request.rules schema request.document with
  | error failure => rfl
  | ok _ =>
    cases schema.root operation.kind with
    | error mismatch => rfl
    | ok root => rfl

theorem Checks.start (h : request.Checks operation schema) :
    request.start = (do
      let root ← (schema.root operation.kind).mapError .mismatch
      return (operation, schema, root)) := by
  rw [h.loads.start, checkDocument_of_valid h.valid]
  rfl

end Start

section Outcome

variable {request : MockRequest} {registry : Registry} {calls : Calls}

theorem generate_of_start_error {failure : Failure} (h : request.start = .error failure) :
    (request.generate registry calls).1 = .error failure := by
  rw [generate_eq, h]

/-- A request that fails at a stage fails with the failure of that stage. -/
theorem FailsAt.generate {stage : Stage} {failure : Failure}
    (h : request.FailsAt registry calls stage failure) :
    (request.generate registry calls).1 = .error failure := by
  cases h with
  | noOperation ho =>
    refine generate_of_start_error ?_
    rw [MockRequest.start, findOperation_of_nil ho]
    rfl
  | unknownOperation ho hn hnone =>
    refine generate_of_start_error ?_
    rw [MockRequest.start, hn, findOperation_of_unknown ho hnone]
    rfl
  | notAcquired hf ha =>
    refine generate_of_start_error ?_
    rw [hf.start, ha]
    rfl
  | notBuilt hf ha hb =>
    refine generate_of_start_error ?_
    rw [hf.start, ha]
    simp [prepare, SchemaSource.load, hb, bind, Except.bind]
  | invalidSchema hb hr hv =>
    obtain ⟨source, ha, hs⟩ := hb.built
    refine generate_of_start_error ?_
    have hload := SchemaSource.load_of_schema hs request.rules
    rw [if_pos hr, checked_of_not hv] at hload
    rw [hb.finds.start, ha]
    simp [prepare, hload, bind, Except.bind]
  | invalidDocument hl hr hv =>
    refine generate_of_start_error ?_
    rw [hl.start, checkDocument_of_not hr hv]
    rfl
  | missingRoot hc hr =>
    refine generate_of_start_error ?_
    rw [hc.start, TypeSystem.root, hr]
    rfl
  | walkFails hc hr hw =>
    rw [generate_eq, hc.start, TypeSystem.root, hr]
    exact hw

theorem Succeeds.generate {json : Json} {after : Calls}
    (h : request.Succeeds registry calls json after) :
    request.generate registry calls = (.ok json, after) := by
  obtain ⟨operation, schema, root, hc, hr, hw⟩ := h
  rw [generate_eq, hc.start, TypeSystem.root, hr]
  exact hw

/-- A request succeeds, or it fails at a stage. -/
theorem succeeds_or_fails (request : MockRequest) (registry : Registry) (calls : Calls) :
    (∃ json after, request.Succeeds registry calls json after) ∨
      ∃ stage failure, request.FailsAt registry calls stage failure := by
  rcases findOperation_cases request.document request.operation with ho |
      ⟨name, ho, hn, hnone⟩ | ⟨operation, hf⟩
  · exact .inr ⟨_, _, .noOperation ho⟩
  · exact .inr ⟨_, _, .unknownOperation ho hn hnone⟩
  cases ha : request.acquired with
  | error cause => exact .inr ⟨_, _, .notAcquired hf ha⟩
  | ok source =>
    cases hs : source.schema with
    | error causes => exact .inr ⟨_, _, .notBuilt hf ha hs⟩
    | ok built =>
      have hb : request.Builds operation built := ⟨hf, source, ha, hs⟩
      -- Two schemas to go on with, the one that was built and what the check leaves of it.
      have hload : (∃ schema, request.Loads operation schema) ∨
          ∃ stage failure, request.FailsAt registry calls stage failure := by
        by_cases hr : .schema ∈ request.rules
        · by_cases hv : built.violations = []
          · exact .inl ⟨_, .checked hb hr hv⟩
          · exact .inr ⟨_, _, .invalidSchema hb hr hv⟩
        · exact .inl ⟨_, .unchecked hb hr⟩
      rcases hload with ⟨schema, hl⟩ | hfails
      · by_cases hv : .document ∈ request.rules → request.document.violations schema = []
        · have hc : request.Checks operation schema := ⟨hl, hv⟩
          cases hroot : schema.root? operation.kind with
          | none => exact .inr ⟨_, _, .missingRoot hc hroot⟩
          | some root =>
            cases hw : walkOperation request.document operation registry schema root calls with
            | mk result after =>
              cases result with
              | ok json => exact .inl ⟨json, after, operation, schema, root, hc, hroot, hw⟩
              | error failure =>
                exact .inr ⟨_, _, .walkFails hc hroot (congrArg Prod.fst hw)⟩
        · rw [Classical.not_imp] at hv
          exact .inr ⟨_, _, .invalidDocument hl hv.1 hv.2⟩
      · exact .inr hfails

/-- **The failure of a generation is that of the stage that fails.** -/
theorem generate_fails_iff {failure : Failure} :
    (request.generate registry calls).1 = .error failure ↔
      ∃ stage, request.FailsAt registry calls stage failure := by
  refine ⟨fun h => ?_, fun ⟨stage, hf⟩ => hf.generate⟩
  rcases request.succeeds_or_fails registry calls with ⟨json, after, hs⟩ | ⟨stage, other, hf⟩
  · rw [hs.generate] at h
    cases h
  · cases hf.generate.symm.trans h
    exact ⟨stage, hf⟩

theorem generate_succeeds_iff {json : Json} {after : Calls} :
    request.generate registry calls = (.ok json, after) ↔
      request.Succeeds registry calls json after := by
  refine ⟨fun h => ?_, Succeeds.generate⟩
  rcases request.succeeds_or_fails registry calls with ⟨json', after', hs⟩ | ⟨stage, failure, hf⟩
  · cases hs.generate.symm.trans h
    exact hs
  · have hfails := hf.generate
    rw [h] at hfails
    cases hfails

/-- A walk fails for what it comes to. -/
theorem failure_of_walkOperation {document : Document} {operation : Operation}
    {schema : TypeSystem} {root : Name} {failure : Failure}
    (h : (walkOperation document operation registry schema root calls).1 = .error failure) :
    ∃ error : WalkError, failure = error.failure := by
  unfold walkOperation at h
  cases hw : (Walk.perform ⟨schema, registry, document.fragments⟩ root operation.selections
    calls).1 with
  | ok mock =>
    simp only [hw] at h
    cases h
  | error error =>
    simp only [hw] at h
    cases h
    exact ⟨error, rfl⟩

theorem Builds.unique {operation operation' : Operation} {schema schema' : TypeSystem}
    (h : request.Builds operation schema) (h' : request.Builds operation' schema') :
    operation = operation' ∧ schema = schema' := by
  obtain ⟨source, ha, hs⟩ := h.built
  obtain ⟨source', ha', hs'⟩ := h'.built
  cases h.finds.symm.trans h'.finds
  cases ha.symm.trans ha'
  cases hs.symm.trans hs'
  exact ⟨rfl, rfl⟩

theorem Loads.unique {operation operation' : Operation} {schema schema' : TypeSystem}
    (h : request.Loads operation schema) (h' : request.Loads operation' schema') :
    operation = operation' ∧ schema = schema' := by
  cases h with
  | unchecked hb hr =>
    cases h' with
    | unchecked hb' _ => exact hb.unique hb'
    | checked _ hr' _ => exact absurd hr' hr
  | checked hb hr hv =>
    cases h' with
    | unchecked _ hr' => exact absurd hr hr'
    | checked hb' _ _ =>
      obtain ⟨rfl, rfl⟩ := hb.unique hb'
      exact ⟨rfl, rfl⟩

/-- What a walk may fail with as well as a stage before it, that stage does not fail with if the walk
is reached. -/
theorem FailsAt.eq_walk {stage : Stage} {failure : Failure}
    (h : request.FailsAt registry calls stage failure)
    (h' : request.FailsAt registry calls .walk failure) : stage = .walk := by
  cases h' with
  | walkFails hc hr hw =>
    cases h with
    | walkFails => rfl
    | invalidDocument hl hr' hv =>
      obtain ⟨-, rfl⟩ := hl.unique hc.loads
      exact absurd (hc.valid hr') hv
    | missingRoot hc' hr' =>
      obtain ⟨rfl, rfl⟩ := hc'.loads.unique hc.loads
      cases hr'.symm.trans hr
    | noOperation | unknownOperation | notAcquired | notBuilt | invalidSchema =>
      obtain ⟨error, he⟩ := failure_of_walkOperation hw
      cases error <;> cases he

/-- A request fails at one stage. -/
theorem FailsAt.stage_unique {stage stage' : Stage} {failure failure' : Failure}
    (h : request.FailsAt registry calls stage failure)
    (h' : request.FailsAt registry calls stage' failure') : stage = stage' := by
  have hsame : failure = failure' := Except.error.inj (h.generate.symm.trans h'.generate)
  by_cases hw : stage = .walk
  · subst hw hsame
    exact (h'.eq_walk h).symm
  by_cases hw' : stage' = .walk
  · subst hw' hsame
    exact h.eq_walk h'
  -- Of the other stages two share a kind of failure: a schema that is not built is not checked.
  have hbuilt : ∀ {operation schema operation' source causes}, request.Builds operation schema →
      request.Finds operation' → request.acquired = .ok source → source.schema ≠ .error causes := by
    intro operation schema operation' source causes hb hf ha hs
    obtain ⟨source', ha', hs'⟩ := hb.built
    cases ha.symm.trans ha'
    cases hs.symm.trans hs'
  cases h with
  | notBuilt hf ha hs =>
    cases h' with
    | invalidSchema hb _ _ => exact absurd hs (hbuilt hb hf ha)
    | _ => first | rfl | exact absurd rfl hw' | cases hsame
  | invalidSchema hb _ _ =>
    cases h' with
    | notBuilt hf ha hs => exact absurd hs (hbuilt hb hf ha)
    | _ => first | rfl | exact absurd rfl hw' | cases hsame
  | walkFails => exact absurd rfl hw
  | noOperation | unknownOperation | notAcquired | invalidDocument | missingRoot =>
    cases h' <;> first | rfl | exact absurd rfl hw' | cases hsame

/-- How a request fails: at the first stage that does not go well. -/
structure FailsInOrder (request : MockRequest) (registry : Registry) (calls : Calls) : Prop where
  stage : ∀ failure, (request.generate registry calls).1 = .error failure ↔
    ∃ stage, request.FailsAt registry calls stage failure
  unique : ∀ stage stage' failure failure', request.FailsAt registry calls stage failure →
    request.FailsAt registry calls stage' failure' → stage = stage' ∧ failure = failure'
  missing : (request.generate registry calls).1 = .error .missingOperation ↔
    request.document.operations = []
  unknown : ∀ name, (request.generate registry calls).1 = .error (.unknownOperation name) ↔
    request.document.operations ≠ [] ∧ request.operation = some name ∧
      ∀ operation ∈ request.document.operations, operation.name ≠ some name

theorem failsInOrder (request : MockRequest) (registry : Registry) (calls : Calls) :
    request.FailsInOrder registry calls where
  stage := fun _ => generate_fails_iff
  unique := fun _ _ _ _ h h' =>
    ⟨h.stage_unique h', Except.error.inj (h.generate.symm.trans h'.generate)⟩
  missing := by
    refine ⟨fun h => ?_, fun ho => (FailsAt.noOperation ho).generate⟩
    obtain ⟨stage, hf⟩ := generate_fails_iff.mp h
    cases hf with
    | noOperation ho => exact ho
    | walkFails _ _ hw =>
      obtain ⟨error, he⟩ := failure_of_walkOperation hw
      cases error <;> cases he
  unknown := by
    refine fun name => ⟨fun h => ?_, fun ⟨ho, hn, hnone⟩ =>
      (FailsAt.unknownOperation ho hn hnone).generate⟩
    obtain ⟨stage, hf⟩ := generate_fails_iff.mp h
    cases hf with
    | unknownOperation ho hn hnone => exact ⟨ho, hn, hnone⟩
    | walkFails _ _ hw =>
      obtain ⟨error, he⟩ := failure_of_walkOperation hw
      cases error <;> cases he

end Outcome

/-! ## 4. More rules -/

/-- A request under other rules. -/
def under (request : MockRequest) (rules : Rules) : MockRequest := { request with rules }

/-- A request is refused by the rules. -/
def Refused (request : MockRequest) (registry : Registry) (calls : Calls) : Prop :=
  ∃ causes, request.FailsAt registry calls .schemaCheck (.invalidSchema causes) ∨
    request.FailsAt registry calls .documentCheck (.invalidDocument causes)

/-- What a schema may be replaced by under other rules: by what is left of it after a check that did
not take place before. -/
inductive Hardened (before after : Rules) (schema : TypeSystem) : TypeSystem → Prop where
  | same : Hardened before after schema schema
  | checked (hb : .schema ∉ before) (ha : .schema ∈ after) (hs : schema.Standard)
    (hr : schema.HasObjectRoots) : Hardened before after schema schema.withoutUnusedScalars

/-- A failure to find a field becomes a failure to find its type, because of a check that did not take
place before: the type is a built-in scalar, and the schema has no use for it. -/
def LosesScalar (request : MockRequest) (rules : Rules) (failure failure' : Failure) : Prop :=
  .schema ∉ request.rules ∧ .schema ∈ rules ∧
    ∃ operation schema field type, request.Builds operation schema ∧ schema.drops type = true ∧
      failure = .mismatch (.invalidField field type) ∧ failure' = .mismatch (.unknownType type)

/-- What becomes of a request under other rules. -/
structure OnlyRefused (request : MockRequest) (rules : Rules) (registry : Registry) (calls : Calls) :
    Prop where
  /-- It does not succeed unless it did before, with the same mock. -/
  mock : ∀ json after, (request.under rules).generate registry calls = (.ok json, after) →
    request.generate registry calls = (.ok json, after)
  success : ∀ json after, request.generate registry calls = (.ok json, after) →
    (request.under rules).generate registry calls = (.ok json, after) ∨
      (request.under rules).Refused registry calls
  /-- What goes wrong before documents are checked goes wrong in the same way. -/
  earlier : ∀ stage failure, stage ∈ [.lookup, .acquisition, .building, .schemaCheck] →
    request.FailsAt registry calls stage failure →
    (request.under rules).FailsAt registry calls stage failure
  /-- What is refused is refused again, for the same reasons if schemas are treated alike. -/
  document : ∀ failure, request.FailsAt registry calls .documentCheck failure →
    (request.under rules).Refused registry calls ∧
      ((.schema ∈ rules → .schema ∈ request.rules) →
        (request.under rules).FailsAt registry calls .documentCheck failure)
  root : ∀ failure, request.FailsAt registry calls .root failure →
    (request.under rules).FailsAt registry calls .root failure ∨
      (request.under rules).Refused registry calls
  walk : ∀ failure, request.FailsAt registry calls .walk failure →
    (∃ failure', (request.under rules).FailsAt registry calls .walk failure' ∧
      (failure' = failure ∨ request.LosesScalar rules failure failure')) ∨
      (request.under rules).Refused registry calls

section Rules

variable {request : MockRequest} {rules : Rules} {registry : Registry} {calls : Calls}
  {operation : Operation} {schema : TypeSystem}

theorem Builds.under (h : request.Builds operation schema) :
    (request.under rules).Builds operation schema := ⟨h.finds, h.built⟩

theorem Loads.builds (h : request.Loads operation schema) (hr : .schema ∉ request.rules) :
    request.Builds operation schema := by
  cases h with
  | unchecked hb _ => exact hb
  | checked _ hr' _ => exact absurd hr' hr

theorem Builds.standard (h : request.Builds operation schema)
    (hsource : ∀ schema, request.acquired = .ok (.built schema) → schema.Standard) :
    schema.Standard := by
  obtain ⟨source, ha, hs⟩ := h.built
  have hstandard : source.Standard := fun built hb => hsource built (hb ▸ ha)
  exact hstandard.schema hs

namespace Hardened

variable {before after : Rules} {hardened : TypeSystem}

theorem root? (h : Hardened before after schema hardened) (kind : OperationKind) :
    hardened.root? kind = schema.root? kind := by
  cases h <;> rfl

/-- Nothing passes with a hardened schema only. -/
theorem violations (h : Hardened before after schema hardened) {document : Document}
    (hv : document.violations hardened = []) : document.violations schema = [] := by
  cases h with
  | same => exact hv
  | checked _ _ hs hr => exact violations_of_checked hs hr hv

/-- A walk that succeeds does so with both schemas. -/
theorem walkOperation_ok (h : Hardened before after schema hardened) {document : Document}
    {root : Name} {json : Json} {log : Calls}
    (hw : walkOperation document operation registry schema root calls = (.ok json, log)) :
    walkOperation document operation registry hardened root calls = (.ok json, log) := by
  cases h with
  | same => exact hw
  | checked _ _ hs hr =>
    rw [walkOperation_checked hs hr, hw]
    rfl

end Hardened

/-- A request that gets a schema gets it under more rules too, unless it is refused. -/
theorem Loads.under (h : request.Loads operation schema)
    (hsource : ∀ schema, request.acquired = .ok (.built schema) → schema.Standard)
    (hsub : request.rules ⊆ rules) (registry : Registry) (calls : Calls) :
    (request.under rules).Refused registry calls ∨
      ∃ hardened, Hardened request.rules rules schema hardened ∧
        (request.under rules).Loads operation hardened := by
  cases h with
  | checked hb hr hv => exact .inr ⟨_, .same, .checked hb.under (hsub hr) hv⟩
  | unchecked hb hr =>
    by_cases hr' : .schema ∈ rules
    · by_cases hv : schema.violations = []
      · exact .inr ⟨_, .checked hr hr' (hb.standard hsource) (hasObjectRoots_of_violations hv),
          .checked hb.under hr' hv⟩
      · exact .inl ⟨_, .inl (.invalidSchema hb.under hr' hv)⟩
    · exact .inr ⟨_, .same, .unchecked hb.under hr'⟩

/-- A request that gets past both checks gets past them under more rules too, unless it is refused. -/
theorem Checks.under (h : request.Checks operation schema)
    (hsource : ∀ schema, request.acquired = .ok (.built schema) → schema.Standard)
    (hsub : request.rules ⊆ rules) (registry : Registry) (calls : Calls) :
    (request.under rules).Refused registry calls ∨
      ∃ hardened, Hardened request.rules rules schema hardened ∧
        (request.under rules).Checks operation hardened := by
  rcases h.loads.under hsource hsub registry calls with hrefused | ⟨hardened, hh, hl⟩
  · exact .inl hrefused
  by_cases hv : .document ∈ rules → request.document.violations hardened = []
  · exact .inr ⟨hardened, hh, hl, hv⟩
  · rw [Classical.not_imp] at hv
    exact .inl ⟨_, .inr (.invalidDocument hl hv.1 hv.2)⟩

theorem Succeeds.under {json : Json} {after : Calls}
    (h : request.Succeeds registry calls json after)
    (hsource : ∀ schema, request.acquired = .ok (.built schema) → schema.Standard)
    (hsub : request.rules ⊆ rules) :
    (request.under rules).Succeeds registry calls json after ∨
      (request.under rules).Refused registry calls := by
  obtain ⟨operation, schema, root, hc, hr, hw⟩ := h
  rcases hc.under hsource hsub registry calls with hrefused | ⟨hardened, hh, hc'⟩
  · exact .inr hrefused
  · exact .inl ⟨operation, hardened, root, hc', hh.root? _ ▸ hr, hh.walkOperation_ok hw⟩

/-- Whatever fails before documents are checked fails in the same way. -/
theorem FailsAt.under_earlier {stage : Stage} {failure : Failure}
    (hstage : stage ∈ [.lookup, .acquisition, .building, .schemaCheck])
    (h : request.FailsAt registry calls stage failure) (hsub : request.rules ⊆ rules) :
    (request.under rules).FailsAt registry calls stage failure := by
  cases h with
  | noOperation ho => exact .noOperation ho
  | unknownOperation ho hn hnone => exact .unknownOperation ho hn hnone
  | notAcquired hf ha => exact .notAcquired hf ha
  | notBuilt hf ha hb => exact .notBuilt hf ha hb
  | invalidSchema hb hr hv => exact .invalidSchema hb.under (hsub hr) hv
  | invalidDocument | missingRoot | walkFails => simp at hstage

theorem Loads.under_same (h : request.Loads operation schema) (hsub : request.rules ⊆ rules)
    (hsame : .schema ∈ rules → .schema ∈ request.rules) :
    (request.under rules).Loads operation schema := by
  cases h with
  | unchecked hb hr => exact .unchecked hb.under fun hr' => hr (hsame hr')
  | checked hb hr hv => exact .checked hb.under (hsub hr) hv

/-- A document that is refused is refused under more rules too. -/
theorem FailsAt.under_document {failure : Failure}
    (h : request.FailsAt registry calls .documentCheck failure)
    (hsource : ∀ schema, request.acquired = .ok (.built schema) → schema.Standard)
    (hsub : request.rules ⊆ rules) :
    (request.under rules).Refused registry calls ∧
      ((.schema ∈ rules → .schema ∈ request.rules) →
        (request.under rules).FailsAt registry calls .documentCheck failure) := by
  cases h with
  | invalidDocument hl hr hv =>
    refine ⟨?_, fun hsame => .invalidDocument (hl.under_same hsub hsame) (hsub hr) hv⟩
    rcases hl.under hsource hsub registry calls with hrefused | ⟨hardened, hh, hl'⟩
    · exact hrefused
    · -- The reasons may be others, but there are some: what passes after the check passed before.
      exact ⟨_, .inr (.invalidDocument hl' (hsub hr) fun hv' => hv (hh.violations hv'))⟩

theorem FailsAt.under_root {failure : Failure} (h : request.FailsAt registry calls .root failure)
    (hsource : ∀ schema, request.acquired = .ok (.built schema) → schema.Standard)
    (hsub : request.rules ⊆ rules) :
    (request.under rules).FailsAt registry calls .root failure ∨
      (request.under rules).Refused registry calls := by
  cases h with
  | missingRoot hc hr =>
    rcases hc.under hsource hsub registry calls with hrefused | ⟨hardened, hh, hc'⟩
    · exact .inr hrefused
    · exact .inl (.missingRoot hc' ((hh.root? _).trans hr))

/-- What becomes of the failure of a walk. -/
theorem losesScalar_of_afterCheck (hb : .schema ∉ request.rules) (ha : .schema ∈ rules)
    (hbuilds : request.Builds operation schema) (failure : Failure) :
    failure.afterCheck schema = failure ∨
      request.LosesScalar rules failure (failure.afterCheck schema) := by
  cases failure with
  | mismatch cause =>
    rcases cause.afterCheck_cases schema with hsame | ⟨field, type, hd, rfl, hafter⟩
    · exact .inl (congrArg Failure.mismatch hsame)
    · exact .inr ⟨hb, ha, operation, schema, field, type, hbuilds, hd, rfl,
        congrArg Failure.mismatch hafter⟩
  | missingOperation | unknownOperation | invalidSchema | invalidDocument | noSchema =>
    exact .inl rfl

theorem FailsAt.under_walk {failure : Failure} (h : request.FailsAt registry calls .walk failure)
    (hsource : ∀ schema, request.acquired = .ok (.built schema) → schema.Standard)
    (hsub : request.rules ⊆ rules) :
    (∃ failure', (request.under rules).FailsAt registry calls .walk failure' ∧
      (failure' = failure ∨ request.LosesScalar rules failure failure')) ∨
      (request.under rules).Refused registry calls := by
  cases h with
  | walkFails hc hr hw =>
    rcases hc.under hsource hsub registry calls with hrefused | ⟨hardened, hh, hc'⟩
    · exact .inr hrefused
    have hr' := (hh.root? _).trans hr
    cases hh with
    | same => exact .inl ⟨failure, .walkFails hc' hr' hw, .inl rfl⟩
    | @checked hb ha hs ho =>
      refine .inl ⟨_, .walkFails hc' hr' ?_, losesScalar_of_afterCheck hb ha (hc.loads.builds hb) _⟩
      rw [walkOperation_checked hs ho]
      exact congrArg (Except.mapError _) hw

theorem Refused.generate (h : request.Refused registry calls) :
    ∃ failure, (request.generate registry calls).1 = .error failure := by
  obtain ⟨causes, hf | hf⟩ := h
  · exact ⟨_, hf.generate⟩
  · exact ⟨_, hf.generate⟩

/-- A request that fails fails under more rules too. -/
theorem FailsAt.under {stage : Stage} {failure : Failure}
    (h : request.FailsAt registry calls stage failure)
    (hsource : ∀ schema, request.acquired = .ok (.built schema) → schema.Standard)
    (hsub : request.rules ⊆ rules) :
    ∃ failure', ((request.under rules).generate registry calls).1 = .error failure' := by
  cases stage with
  | lookup | acquisition | building | schemaCheck =>
    exact ⟨failure, (h.under_earlier (by simp) hsub).generate⟩
  | documentCheck => exact (h.under_document hsource hsub).1.generate
  | root =>
    rcases h.under_root hsource hsub with hf | hrefused
    · exact ⟨failure, hf.generate⟩
    · exact hrefused.generate
  | walk =>
    rcases h.under_walk hsource hsub with ⟨failure', hf, -⟩ | hrefused
    · exact ⟨failure', hf.generate⟩
    · exact hrefused.generate

/-- A mock that there is under more rules there is without them. -/
theorem generate_of_under
    (hsource : ∀ schema, request.acquired = .ok (.built schema) → schema.Standard)
    (hsub : request.rules ⊆ rules) {json : Json} {after : Calls}
    (h : (request.under rules).generate registry calls = (.ok json, after)) :
    request.generate registry calls = (.ok json, after) := by
  rcases request.succeeds_or_fails registry calls with ⟨json', after', hs⟩ | ⟨stage, failure, hf⟩
  · rcases hs.under hsource hsub with hs' | hrefused
    · cases hs'.generate.symm.trans h
      exact hs.generate
    · obtain ⟨failure, hfails⟩ := hrefused.generate
      rw [h] at hfails
      cases hfails
  · obtain ⟨failure', hfails⟩ := hf.under hsource hsub
    rw [h] at hfails
    cases hfails

end Rules

end MockRequest

/-! ## 5. Rules only refuse -/

/-- **Rules only refuse.** A generation fails with the failure of the first stage that fails. Under
more rules it gives the same mock or none, and it fails as before, or is refused by one of the two
checks, or misses a type where it missed a field on a scalar for which the schema has no use.

A schema that is handed over built is standard, or that of a project; one that is built on the way is
in any case. -/
theorem rules_only_refuse {request : MockRequest} {rules : Rules}
    (hbuilt : ∀ schema, request.acquired = .ok (.built schema) →
      schema.Standard ∨ ∃ (files : FileAccess Id) (start : FilePath),
        (discoverSchema files start).run = .ok schema)
    (hsub : request.rules ⊆ rules) (registry : Registry) (calls : Calls) :
    request.FailsInOrder registry calls ∧ request.OnlyRefused rules registry calls := by
  have hsource : ∀ schema, request.acquired = .ok (.built schema) → schema.Standard := by
    intro schema ha
    rcases hbuilt schema ha with hs | ⟨files, start, hd⟩
    · exact hs
    · exact discoverSchema_standard hd
  refine ⟨request.failsInOrder registry calls, ?_⟩
  constructor
  case mock => exact fun _ _ h => MockRequest.generate_of_under hsource hsub h
  case success =>
    intro json after h
    have hsucceeds := (MockRequest.generate_succeeds_iff.mp h).under hsource hsub
    exact hsucceeds.imp_left MockRequest.Succeeds.generate
  case earlier => exact fun _ _ hstage h => h.under_earlier hstage hsub
  case document => exact fun _ h => h.under_document hsource hsub
  case root => exact fun _ h => h.under_root hsource hsub
  case walk => exact fun _ h => h.under_walk hsource hsub

theorem Walk.Sample.staff_standard : Walk.Sample.staff.Standard := ⟨by decide, by decide⟩

/-- With both checks, for a request that has no rules itself. Both pass, so the mock is the same. -/
theorem rules_only_refuse_roster :
    let request := Walk.Sample.rosterRequest
    (∀ schema, request.acquired = .ok (.built schema) →
      schema.Standard ∨ ∃ (files : FileAccess Id) (start : FilePath),
        (discoverSchema files start).run = .ok schema) ∧
    request.rules ⊆ Rules.all ∧
    (request.under .all).generate Walk.Sample.counters [2, 2, 1] =
      (.ok Walk.Sample.secondRoster, [2, 2, 1, 2, 2, 1]) ∧
    request.generate Walk.Sample.counters [2, 2, 1] =
      (.ok Walk.Sample.secondRoster, [2, 2, 1, 2, 2, 1]) ∧
    request.FailsInOrder Walk.Sample.counters [2, 2, 1] ∧
    request.OnlyRefused .all Walk.Sample.counters [2, 2, 1] := by
  intro request
  have hbuilt : ∀ schema, request.acquired = .ok (.built schema) →
      schema.Standard ∨ ∃ (files : FileAccess Id) (start : FilePath),
        (discoverSchema files start).run = .ok schema := by
    intro schema h
    cases h
    exact .inl Walk.Sample.staff_standard
  have hb : request.Builds Walk.Sample.roster Walk.Sample.staff := ⟨rfl, _, rfl, rfl⟩
  have hc : (request.under .all).Checks Walk.Sample.roster _ :=
    ⟨.checked hb.under (by decide) Walk.Sample.staff_violations,
      fun _ => Walk.Sample.roster_violations⟩
  have hwalk : walkOperation Walk.Sample.rosterDocument Walk.Sample.roster Walk.Sample.counters
      Walk.Sample.staff "Query" [2, 2, 1] =
        (.ok Walk.Sample.secondRoster, [2, 2, 1, 2, 2, 1]) := by rfl
  have hhardened : MockRequest.Hardened request.rules .all Walk.Sample.staff
      Walk.Sample.staff.withoutUnusedScalars :=
    .checked (by decide) (by decide) Walk.Sample.staff_standard
      (hasObjectRoots_of_violations Walk.Sample.staff_violations)
  have hmock : (request.under .all).generate Walk.Sample.counters [2, 2, 1] =
      (.ok Walk.Sample.secondRoster, [2, 2, 1, 2, 2, 1]) :=
    MockRequest.Succeeds.generate ⟨_, _, "Query", hc, rfl, hhardened.walkOperation_ok hwalk⟩
  obtain ⟨horder, hrefused⟩ :=
    rules_only_refuse hbuilt (show request.rules ⊆ Rules.all from nofun) Walk.Sample.counters
      [2, 2, 1]
  exact ⟨hbuilt, nofun, hmock, hrefused.mock _ _ hmock, horder, hrefused⟩

namespace Walk.Sample

/-- A field on a scalar that the schema of the staff has no use for. -/
def floatRequest : MockRequest where
  document := [.operation ⟨.query, none, [], [], [.inline (some "Float") [] [field "x" []]]⟩]
  acquired := .ok (.built staff)
  rules := []
  operation := none

/-- Without the check the scalar has no such field, and with it there is no such type. -/
theorem floatRequest_fails (registry : Registry) (calls : Calls) :
    floatRequest.FailsAt registry calls .walk (.mismatch (.invalidField "x" "Float")) ∧
      (floatRequest.under [.schema]).FailsAt registry calls .walk
        (.mismatch (.unknownType "Float")) := by
  have hb : floatRequest.Builds ⟨.query, none, [], [], [.inline (some "Float") [] [field "x" []]]⟩
      staff := ⟨rfl, _, rfl, rfl⟩
  have hbefore : floatRequest.Checks _ staff := ⟨.unchecked hb (by decide), nofun⟩
  have hafter : (floatRequest.under [.schema]).Checks _ staff.withoutUnusedScalars :=
    ⟨.checked hb.under (by decide) staff_violations, by decide⟩
  exact ⟨.walkFails hbefore rfl rfl, .walkFails hafter rfl rfl⟩

end Walk.Sample

/-- The rule for schemas does more than to refuse: the failure of a walk changes with it. -/
theorem rules_change_failure :
    let request := Walk.Sample.floatRequest
    request.rules ⊆ [.schema] ∧
    request.FailsAt .empty [] .walk (.mismatch (.invalidField "x" "Float")) ∧
    (request.generate .empty []).1 = .error (.mismatch (.invalidField "x" "Float")) ∧
    ((request.under [.schema]).generate .empty []).1 = .error (.mismatch (.unknownType "Float")) ∧
    ¬ (((request.under [.schema]).generate .empty []).1 = (request.generate .empty []).1 ∨
      ∃ causes, ((request.under [.schema]).generate .empty []).1 = .error (.invalidSchema causes) ∨
        ((request.under [.schema]).generate .empty []).1 = .error (.invalidDocument causes)) := by
  intro request
  obtain ⟨hbefore, hafter⟩ := Walk.Sample.floatRequest_fails .empty []
  refine ⟨nofun, hbefore, hbefore.generate, hafter.generate, ?_⟩
  rw [hbefore.generate, hafter.generate]
  rintro (h | ⟨causes, h | h⟩) <;> cases h

end MockGraph
