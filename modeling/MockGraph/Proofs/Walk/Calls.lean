import Mathlib.Algebra.Order.Ring.Nat
import MockGraph.Proofs.Walk.Places
import MockGraph.Proofs.Walk.Progress

/-!
# `Proofs/Walk/Calls`: how often and in which order resolvers are called

A generation that succeeds calls a resolver once for every field of its walk, in the order of
`fieldOrder`: after the resolvers for what is selected on the field, and for a fragment where it is
spread first. It calls none for a fragment that is spread again, for the inside of lists, for a
field whose value another one replaces, or for the root type. `Accounts` says so.

Main statement, `generate_calls`: a generation is accounted for wherever it stands in a sequence of
generations that share a registry. The calls of the generations before it, failed ones included,
come first in the log, and a generator goes on where they left it.
-/

set_option autoImplicit false

namespace MockGraph

open Syntax

/-! ## 1. The log -/

/-- The generator that a type is bound to. -/
def Registry.generatorId? (registry : Registry) (type : Name) : Option Nat :=
  match registry.get? type with
  | some (.generator id _) => some id
  | _ => none

theorem Registry.log_call (registry : Registry) (type : Name) (calls : Calls) :
    ((registry.call type).run calls).2 = (registry.generatorId? type).toList ++ calls := by
  unfold Registry.call Registry.generatorId?
  rcases registry.get? type with _ | (value | ⟨id, yield⟩)
  · rfl
  · rfl
  · rfl

namespace Walk

/-- The generator that is called for a field. -/
def generatorOf (context : Context) (field : Occurrence) : Option Nat :=
  (innerType? context.schema field).bind context.registry.generatorId?

/-- The generators that are called for fields, in the order of the fields. -/
def generatorsOf (context : Context) (fields : List Occurrence) : List Nat :=
  fields.filterMap (generatorOf context)

/-- How many of the fields are of a type. -/
def countOf (schema : TypeSystem) (type : Name) (fields : List Occurrence) : Nat :=
  fields.countP fun field => innerType? schema field = some type

section Log

variable (context : Context) (fields : List Occurrence) (calls : Calls)

theorem log_answerOf (field : Occurrence) :
    ((answerOf context field).run calls).2 = (generatorOf context field).toList ++ calls := by
  unfold answerOf generatorOf
  cases innerType? context.schema field with
  | none => rfl
  | some type => exact Registry.log_call context.registry type calls

/-- The log holds the generators in the order of the fields. -/
theorem log_answersTo :
    (answersTo context fields calls).2 = (generatorsOf context fields).reverse ++ calls := by
  induction fields generalizing calls with
  | nil => rfl
  | cons field rest ih =>
    rw [answersTo_cons, ih, log_answerOf]
    unfold generatorsOf
    rw [List.filterMap_cons]
    cases generatorOf context field with
    | none => rfl
    | some id => simp

/-- The answer to a field is that of its resolver after the calls for the fields before it. -/
theorem getElem?_answersTo {k : Nat} {field : Occurrence} (hk : fields[k]? = some field) :
    (answersTo context fields calls).1[k]? =
      some ((answerOf context field).run
        ((generatorsOf context (fields.take k)).reverse ++ calls)).1 := by
  obtain ⟨hlt, rfl⟩ := List.getElem?_eq_some_iff.mp hk
  have hsplit : fields = fields.take k ++ fields[k] :: fields.drop (k + 1) := by
    rw [← List.drop_eq_getElem_cons hlt, List.take_append_drop]
  have hlength : (answersTo context (fields.take k) calls).1.length = k := by
    rw [length_answersTo, List.length_take, Nat.min_eq_left (Nat.le_of_lt hlt)]
  have hall := congrArg (fun all => (answersTo context all calls).1[k]?) hsplit
  simp only [answersTo_append, answersTo_cons, log_answersTo] at hall
  rw [hall, List.getElem?_append_right (Nat.le_of_eq hlength), hlength, Nat.sub_self]
  rfl

/-- A generator that one type alone is bound to is called once for each field of the type. -/
theorem count_generatorsOf {type : Name} {id : Nat}
    (ht : context.registry.generatorId? type = some id)
    (ho : ∀ other, context.registry.generatorId? other = some id → other = type) :
    (generatorsOf context fields).count id = countOf context.schema type fields := by
  rw [generatorsOf, List.count_filterMap, countOf]
  refine List.countP_congr fun field _ => ?_
  rw [beq_iff_eq, decide_eq_true_iff, generatorOf]
  cases innerType? context.schema field with
  | none => simp
  | some other =>
    rw [Option.bind_some, Option.some.injEq]
    exact ⟨ho other, fun h => h ▸ ht⟩

end Log

theorem countOf_perm {schema : TypeSystem} {fields fields' : List Occurrence}
    (h : fields.Perm fields') (type : Name) :
    countOf schema type fields = countOf schema type fields' := h.countP_eq _

/-! ## 2. The account of a walk -/

/-- What the calls of a walk are that gives `mock` and takes the log from `calls` to `after`. -/
structure Accounts (context : Context) (cursor : Name) (set : List Selection) (calls : Calls)
    (mock : Json.Object) (after : Calls) : Prop where
  /-- The fragments of the walk are those that it reaches. -/
  nodup : (spreadOrder context cursor set).Nodup
  reached : ∀ name, name ∈ spreadOrder context cursor set ↔
    (context.fragment? name).isSome ∧ Reachable context (spreadsIn context.schema cursor set) name
  /-- Each field of the selections is asked once, and each field of each of these fragments. -/
  fields : (fieldOrder context cursor set).Perm
    (visitedFields context.schema cursor set ++
      (spreadOrder context cursor set).flatMap (bodyFields context))
  /-- The generators are called in the order of the fields. -/
  log : after = (generatorsOf context (fieldOrder context cursor set)).reverse ++ calls
  count : ∀ type id, context.registry.generatorId? type = some id →
    (∀ other, context.registry.generatorId? other = some id → other = type) →
    after.count id = calls.count id +
      (countOf context.schema type (visitedFields context.schema cursor set) +
        ((spreadOrder context cursor set).map fun name =>
          countOf context.schema type (bodyFields context name)).sum)
  /-- The answer with the number `k` is that of the resolver for the field with this number. -/
  answers : ∀ k field, (fieldOrder context cursor set)[k]? = some field →
    ∃ type, innerType? context.schema field = some type ∧
      (answersTo context (fieldOrder context cursor set) calls).1[k]? =
        some ((context.registry.call type).run
          ((generatorsOf context ((fieldOrder context cursor set).take k)).reverse ++ calls)).1
  /-- It supplies this field in the plan of the walk. All spreads of a fragment have one plan. -/
  plan : ∃ parts, (plan context.schema context.fragments cursor set).1 = .ok parts ∧
    mock = filled context.schema (answersTo context (fieldOrder context cursor set) calls).1 parts ∧
    (∀ k field, (fieldOrder context cursor set)[k]? = some field →
      ∃ found inner, .field field found k inner ∈ nodesIn parts) ∧
    (∀ field found k inner, .field field found k inner ∈ nodesIn parts →
      (fieldOrder context cursor set)[k]? = some field) ∧
    ∀ name inner again, .spread name inner ∈ nodesIn parts → .spread name again ∈ nodesIn parts →
      inner = again

/-- **Every call is accounted for.** -/
theorem perform_accounts {context : Context} {cursor : Name} {set : List Selection} {calls : Calls}
    {mock : Json.Object} (h : (perform context cursor set calls).1 = .ok mock) :
    (Walk.plan context.schema context.fragments cursor set).2 = fieldOrder context cursor set ∧
    Accounts context cursor set calls mock (perform context cursor set calls).2 := by
  rw [perform_eq_plan] at h ⊢
  cases hplan : (Walk.plan context.schema context.fragments cursor set).1 with
  | error error =>
    rw [hplan] at h
    cases h
  | ok parts =>
    rw [hplan] at h
    cases h
    obtain ⟨hasked, hplaced, hplaces, hspreads⟩ := plan_laysOut hplan
    rw [hasked]
    have hlog := log_answersTo context (fieldOrder context cursor set) calls
    have hperm := fieldOrder_perm context cursor set
    refine ⟨rfl, nodup_spreadOrder .., mem_spreadOrder_iff _ _ _, hperm, hlog, ?_, ?_, parts, hplan,
      rfl, hplaced, fun field found k inner hm => (hplaces field found k inner hm).1, hspreads⟩
    · intro type id ht ho
      rw [hlog, List.count_append, List.count_reverse, count_generatorsOf _ _ ht ho, Nat.add_comm,
        countOf_perm hperm, countOf, List.countP_append, List.countP_flatMap]
      rfl
    · intro k field hk
      obtain ⟨found, inner, hm⟩ := hplaced k field hk
      have ht := innerType?_of_target (hplaces field found k inner hm).2
      refine ⟨found.name, ht, ?_⟩
      rw [getElem?_answersTo context _ calls hk, answerOf, ht]

end Walk

/-! ## 3. Sequences of generations -/

/-- What a generation is asked for, whatever the registry. -/
structure MockRequest where
  document : Document
  /-- The schema, once it is acquired. -/
  acquired : Except ProjectError SchemaSource
  rules : Rules
  operation : Option String

namespace MockRequest

/-- Carries out a request. -/
def generate (request : MockRequest) (registry : Registry) (calls : Calls) :
    Except Failure Json × Calls :=
  Id.run (MockGraph.generate request.document (pure request.acquired)
    ⟨registry, request.rules, request.operation⟩ calls)

/-- The operation that is walked, the schema and the root type. -/
def start (request : MockRequest) : Except Failure (Operation × TypeSystem × Name) := do
  let operation ← findOperation request.document request.operation
  let source ← request.acquired.mapError .noSchema
  let (schema, root) ← prepare request.document operation source request.rules
  return (operation, schema, root)

/-- The generators that are called for a request, in the order of the calls. -/
def generators (request : MockRequest) (registry : Registry) : List Nat :=
  match request.start with
  | .error _ => []
  | .ok (operation, schema, root) =>
    Walk.generatorsOf ⟨schema, registry, request.document.fragments⟩
      (Walk.plan schema request.document.fragments root operation.selections).2

theorem generate_eq (request : MockRequest) (registry : Registry) (calls : Calls) :
    request.generate registry calls =
      match request.start with
      | .error failure => (.error failure, calls)
      | .ok (operation, schema, root) =>
        walkOperation request.document operation registry schema root calls := by
  unfold generate start MockGraph.generate
  cases findOperation request.document request.operation with
  | error failure => rfl
  | ok operation =>
    cases request.acquired with
    | error cause => rfl
    | ok source =>
      have hsource : (Except.ok source : Except ProjectError SchemaSource).mapError
        (Failure.noSchema) = .ok source := rfl
      simp only [pure_bind, mockOperation, hsource]
      cases hp : prepare request.document operation source request.rules with
      | error failure => simp only [hp, bind, Except.bind, Id.run_pure]
      | ok start =>
        simp only [hp, bind, Except.bind, pure, Except.pure]
        rfl

/-- With constant resolvers a request that starts gives the expansion of its operation. -/
theorem generate_eq_expandAll {request : MockRequest} {registry : Registry}
    (hc : registry.IsConstant) (calls : Calls) {operation : Operation} {schema : TypeSystem} {root : Name}
    (hs : request.start = .ok (operation, schema, root)) :
    let context : Walk.Context := ⟨schema, registry, request.document.fragments⟩
    (request.generate registry calls).1 =
      ((Walk.expandAll context (Walk.expandFragment context []) root []
        operation.selections).map Json.object).mapError WalkError.failure := by
  intro context
  obtain ⟨after, hruns, -⟩ := Walk.runs_perform context root operation.selections calls
  rw [generate_eq, hs, hruns.eq_expandAll hc]
  rfl

/-- A request calls its generators, whether it fails or not. -/
theorem log_generate (request : MockRequest) (registry : Registry) (calls : Calls) :
    (request.generate registry calls).2 = (request.generators registry).reverse ++ calls := by
  rw [generate_eq, generators]
  cases request.start with
  | error failure => rfl
  | ok start =>
    obtain ⟨operation, schema, root⟩ := start
    simp only [walkOperation, Walk.perform_eq_plan, Walk.log_answersTo]

end MockRequest

/-- Carries out requests one after the other, with one registry. -/
def generateAll (registry : Registry) :
    List MockRequest → Calls → List (Except Failure Json) × Calls
  | [], calls => ([], calls)
  | request :: rest, calls =>
    let (result, between) := request.generate registry calls
    let (results, after) := generateAll registry rest between
    (result :: results, after)

theorem log_generateAll (registry : Registry) (requests : List MockRequest) (calls : Calls) :
    (generateAll registry requests calls).2 =
      (requests.flatMap (·.generators registry)).reverse ++ calls := by
  induction requests generalizing calls with
  | nil => rfl
  | cons request rest ih =>
    simp only [generateAll, ih, request.log_generate, List.flatMap_cons, List.reverse_append,
      List.append_assoc]

/-- **Resolver calls are one per field.** A generation that succeeds, after any number of others
with the same registry, calls the generators of its fields and no others, and its mock is made of
their answers. What was called before it is the calls of the requests before it, one after the
other. -/
theorem generate_calls {registry : Registry} {earlier : List MockRequest} {request : MockRequest}
    {calls after : Calls} {json : Json}
    (h : request.generate registry (generateAll registry earlier calls).2 = (.ok json, after)) :
    (generateAll registry earlier calls).2 =
      (earlier.flatMap (·.generators registry)).reverse ++ calls ∧
    ∃ operation schema root mock, request.start = .ok (operation, schema, root) ∧
      json = .object mock ∧
      request.generators registry =
        Walk.generatorsOf ⟨schema, registry, request.document.fragments⟩
          (Walk.fieldOrder ⟨schema, registry, request.document.fragments⟩ root
            operation.selections) ∧
      Walk.Accounts ⟨schema, registry, request.document.fragments⟩ root operation.selections
        (generateAll registry earlier calls).2 mock after := by
  refine ⟨log_generateAll registry earlier calls, ?_⟩
  rw [MockRequest.generate_eq] at h
  unfold MockRequest.generators
  cases hs : request.start with
  | error failure =>
    rw [hs] at h
    cases h
  | ok start =>
    obtain ⟨operation, schema, root⟩ := start
    rw [hs] at h
    simp only [walkOperation] at h
    cases hp : (Walk.perform ⟨schema, registry, request.document.fragments⟩ root
      operation.selections (generateAll registry earlier calls).2).1 with
    | error error =>
      rw [hp] at h
      cases h
    | ok mock =>
      rw [hp] at h
      cases h
      obtain ⟨hasked, haccounts⟩ := Walk.perform_accounts hp
      exact ⟨operation, schema, root, mock, rfl, rfl, congrArg (Walk.generatorsOf _) hasked,
        haccounts⟩

namespace Walk.Sample

/-- Two generators, one for teams and one for users. -/
def counters : Registry :=
  let numbered (member : String) (values : List Nat) : List Json :=
    values.map fun value => .object [(member, .string value.repr)]
  (Registry.empty.insert "Team" (.cycling 1 (numbered "id" [10, 11]))).insert
    "User" (.cycling 2 (numbered "name" [20, 21, 22]))

def rosterRequest : MockRequest := ⟨rosterDocument, .ok (.built staff), [], none⟩

/-- The second mock of the roster. -/
def secondRoster : Json :=
  let team : Json := .object [("id", .string "11")]
  .object [
    ("me", .object [("name", .string "22"), ("team", team)]),
    ("users", .array [.object [("team", team), ("name", .string "20")]])]

/-- A request is carried out twice. Each time the teams are asked once, although the fragment that
asks them is spread three times, and the users twice. -/
theorem generate_calls_roster :
    let earlier := (generateAll counters [rosterRequest] []).2
    rosterRequest.generate counters earlier = (.ok secondRoster, [2, 2, 1, 2, 2, 1]) ∧
    earlier = ([rosterRequest].flatMap (·.generators counters)).reverse ++ [] ∧
    ∃ operation schema root mock, rosterRequest.start = .ok (operation, schema, root) ∧
      secondRoster = .object mock ∧
      rosterRequest.generators counters =
        generatorsOf ⟨schema, counters, rosterRequest.document.fragments⟩
          (fieldOrder ⟨schema, counters, rosterRequest.document.fragments⟩ root
            operation.selections) ∧
      Accounts ⟨schema, counters, rosterRequest.document.fragments⟩ root operation.selections
        earlier mock [2, 2, 1, 2, 2, 1] := by
  have h : rosterRequest.generate counters (generateAll counters [rosterRequest] []).2 =
      (.ok secondRoster, [2, 2, 1, 2, 2, 1]) := by
    have hfirst : (generateAll counters [rosterRequest] []).2 = [2, 2, 1] := rfl
    rw [hfirst]
    rfl
  exact ⟨h, generate_calls h⟩

end Walk.Sample

end MockGraph
