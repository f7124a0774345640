import MockGraph.Proofs.Walk.Conformance

/-!
# `Proofs/Walk/Typenames`: which types objects are said to have

A walk selects fields on a cursor: the type of an object, or the type condition that it has come
through last. `routes` lists the fields of a selection set together with that condition, and knows
nothing of cursors. So it says for each `__typename` what it stands for.

Main statement, `generate_typenames`: without resolvers, every entry of an object that is from a
selection of `__typename` has as its value the closest type condition around that selection, and the
type of the object if there is none. An object of type `User` is therefore a `Node` in all fragments
on `Node`, and `generate_typename_node` is a valid document that has it both ways.
-/

set_option autoImplicit false

namespace MockGraph

open Syntax

namespace Walk

/-! ## 1. Fields and the conditions around them -/

/-- A field of a selection set, and the closest type condition around it inside the set. -/
structure Route where
  condition? : Option Name
  key : String
  name : Name
  arguments : List Argument
  nested : List Selection

/-- The field as it is selected on an object of type `type`. -/
def Route.on (type : Name) (route : Route) : Occurrence :=
  ⟨route.condition?.getD type, route.key, route.name, route.arguments, route.nested⟩

mutual

/-- The fields of a selection, where `inside` gives those of a fragment and `condition?` is the
closest condition around the selection. -/
def routesOf (inside : Name → List Route) (condition? : Option Name) : Selection → List Route
  | .field alias? name arguments _ nested =>
    [⟨condition?, alias?.getD name, name, arguments, nested⟩]
  | .spread name _ => inside name
  | .inline inner? _ nested => routesIn inside (inner?.or condition?) nested

def routesIn (inside : Name → List Route) (condition? : Option Name) : List Selection → List Route
  | [] => []
  | selection :: rest => routesOf inside condition? selection ++ routesIn inside condition? rest

end

/-- The fields of a fragment and of those spread in it, all of them inside its type condition. -/
def fragmentRoutes (context : Context) (stack : List Name) (name : Name) : List Route :=
  match _hf : context.fragment? name with
  | none => []
  | some fragment =>
    if _hn : name ∈ stack then []
    else
      routesIn (fun inner => fragmentRoutes context (name :: stack) inner)
        (some fragment.typeCondition) fragment.selections
termination_by (offStack context stack).length
decreasing_by exact length_offStack_cons_lt _hf _hn

/-- The fields of a selection set, those in fragments included. -/
def routes (context : Context) (set : List Selection) : List Route :=
  routesIn (fragmentRoutes context []) none set

section Routes

variable {context : Context} {type : Name}

mutual

/-- Fields are selected on the closest condition, and on the type of the object if there is none. -/
theorem fieldsOf_eq_routes {inside : Name → List Occurrence} {inside' : Name → List Route}
    (hi : ∀ name, inside name = (inside' name).map (Route.on type)) (condition? : Option Name) :
    ∀ selection, fieldsOf inside (condition?.getD type) selection =
      (routesOf inside' condition? selection).map (Route.on type)
  | .field alias? name arguments directives nested => rfl
  | .spread name directives => hi name
  | .inline inner? directives nested => by
    have hnearest : inner?.getD (condition?.getD type) = (inner?.or condition?).getD type := by
      cases inner? <;> rfl
    rw [fieldsOf, routesOf, hnearest]
    exact fieldsIn_eq_routes hi _ nested

theorem fieldsIn_eq_routes {inside : Name → List Occurrence} {inside' : Name → List Route}
    (hi : ∀ name, inside name = (inside' name).map (Route.on type)) (condition? : Option Name) :
    ∀ set, fieldsIn inside (condition?.getD type) set =
      (routesIn inside' condition? set).map (Route.on type)
  | [] => rfl
  | selection :: rest => by
    rw [fieldsIn, routesIn, List.map_append, fieldsOf_eq_routes hi condition? selection,
      fieldsIn_eq_routes hi condition? rest]

end

theorem fragmentFields_eq_routes (stack : List Name) (name : Name) :
    fragmentFields context stack name =
      (fragmentRoutes context stack name).map (Route.on type) := by
  rw [fragmentFields, fragmentRoutes]
  cases hf : context.fragment? name with
  | none => simp
  | some fragment =>
    by_cases hn : name ∈ stack
    · simp [hn]
    · simp only [hn, dite_false]
      exact fieldsIn_eq_routes (fun inner => fragmentFields_eq_routes (name :: stack) inner)
        (some fragment.typeCondition) fragment.selections
termination_by (offStack context stack).length
decreasing_by exact length_offStack_cons_lt hf hn

/-- The fields of a selection set are those of its routes. -/
theorem selectedFields_eq_routes (set : List Selection) :
    selectedFields context type set = (routes context set).map (Route.on type) :=
  fieldsIn_eq_routes (fragmentFields_eq_routes []) none set

end Routes

/-! ## 2. Objects in a mock -/

/-- The selection that an entry of an object of type `type` is from: of those under the key that
have a value, the last. -/
def source? (context : Context) (type : Name) (set : List Selection) (key : String) :
    Option Route :=
  ((routes context set).filter fun route =>
    route.key = key && !isMemberless context.schema (route.on type)).getLast?

/-- The objects of a mock, each with its type and with what is selected on it: the mock itself, and
the object inside the lists of an entry of one of them. -/
inductive Stands (context : Context) (root : Name) (set : List Selection) (mock : Json.Object) :
    Name → List Selection → Json.Object → Prop where
  | whole : Stands context root set mock root set mock
  | entry {outer type : Name} {selected : List Selection} {around inner : Json.Object}
    {key : String} {route : Route} (h : Stands context root set mock outer selected around)
    (hs : source? context outer selected key = some route)
    (hd : descent? context.schema (route.condition?.getD outer) route.name = some type)
    (hv : (around.get? key).bind Json.inner? = some inner) :
    Stands context root set mock type route.nested inner

/-- What the entries of an object of type `type` tell of types. -/
structure TellsTypes (context : Context) (type : Name) (set : List Selection) (mock : Json.Object) :
    Prop where
  /-- There is an entry exactly if it is from some selection. -/
  sources : ∀ key, (mock.get? key).isSome = (source? context type set key).isSome
  /-- An entry that is from `__typename` is the closest condition around it. -/
  typenames : ∀ key route, source? context type set key = some route → route.name = "__typename" →
    mock.get? key = some (.string (route.condition?.getD type))

section Objects

variable {context : Context} {root type : Name} {set selected : List Selection}
  {mock inner : Json.Object}

theorem producer?_eq_source? (key : String) :
    producer? context.schema (selectedFields context type set) key =
      (source? context type set key).map (Route.on type) := by
  unfold producer? source? under producing
  rw [selectedFields_eq_routes, List.filter_filter, List.filter_map, List.getLast?_map]
  rfl

/-- An entry is what the selection gives that it is from. -/
theorem gives_of_source? (hu : context.Unbound)
    (h : expandAll context (expandFragment context []) type [] set = .ok mock) (key : String) :
    (source? context type set key = none ∧ mock.get? key = none) ∨
      ∃ route value, source? context type set key = some route ∧ mock.get? key = some value ∧
        Gives context (route.on type) value := by
  obtain ⟨-, hl⟩ := lays_producing hu h
  have hsource : producer? context.schema (selectedFields context type set) key =
      (source? context type set key).map (Route.on type) := producer?_eq_source? key
  rw [producer?] at hsource
  rcases hl.cases key with ⟨hfield, hnone⟩ | ⟨field, value, hfield, hvalue, hg⟩
  · rw [hfield] at hsource
    exact .inl ⟨Option.map_eq_none_iff.mp hsource.symm, hnone⟩
  · rw [hfield] at hsource
    obtain ⟨route, hroute, rfl⟩ := Option.map_eq_some_iff.mp hsource.symm
    exact .inr ⟨route, value, hroute, hvalue, hg⟩

/-- Every object in a mock is the expansion of what is selected on it. -/
theorem Stands.expands (hu : context.Unbound)
    (h : expandAll context (expandFragment context []) root [] set = .ok mock)
    (hs : Stands context root set mock type selected inner) :
    expandAll context (expandFragment context []) type [] selected = .ok inner := by
  induction hs with
  | whole => exact h
  | entry hstands hsource hd hv ih =>
    obtain ⟨value, hvalue, hinner⟩ := Option.bind_eq_some_iff.mp hv
    rcases gives_of_source? hu ih _ with ⟨hnone, -⟩ | ⟨route, found, hroute, hfound, hg⟩
    · cases hsource.symm.trans hnone
    cases hsource.symm.trans hroute
    cases hvalue.symm.trans hfound
    rcases hg.inner? hu with ⟨hnone, -⟩ | ⟨type, found, htype, hnested, hfound⟩
    · cases hd.symm.trans hnone
    · cases hd.symm.trans htype
      cases hinner.symm.trans hfound
      exact hnested

theorem tellsTypes_of_expands (hu : context.Unbound)
    (h : expandAll context (expandFragment context []) type [] set = .ok mock) :
    TellsTypes context type set mock := by
  constructor
  · intro key
    rcases gives_of_source? hu h key with ⟨hnone, hmissing⟩ | ⟨route, value, hroute, hvalue, -⟩
    · rw [hnone, hmissing]
      rfl
    · rw [hroute, hvalue]
      rfl
  · intro key route hsource hn
    rcases gives_of_source? hu h key with ⟨hnone, -⟩ | ⟨found, value, hroute, hvalue, hg⟩
    · cases hsource.symm.trans hnone
    · cases hsource.symm.trans hroute
      rcases hg.cases hu with ⟨-, rfl⟩ | ⟨hne, -⟩
      · exact hvalue
      · exact absurd hn hne

end Objects

end Walk

/-! ## 3. Generations -/

/-- **A type name is the closest condition.** Without resolvers, in every object of a mock, an entry
that is from a selection of `__typename` has as its value the closest type condition around the
selection, and the type of the object if there is none. So selections with the same closest
condition never disagree. -/
theorem generate_typenames {request : MockRequest} {calls : Calls} {json : Json}
    (h : (request.generate .empty calls).1 = .ok json) :
    ∃ operation schema root mock, request.start = .ok (operation, schema, root) ∧
      json = .object mock ∧
      let context : Walk.Context := ⟨schema, .empty, request.document.fragments⟩
      ∀ type set inner, Walk.Stands context root operation.selections mock type set inner →
        Walk.TellsTypes context type set inner ∧
        ∀ key key' route route', Walk.source? context type set key = some route →
          Walk.source? context type set key' = some route' → route.name = "__typename" →
          route'.name = "__typename" → route.condition? = route'.condition? →
          inner.get? key = inner.get? key' := by
  cases hs : request.start with
  | error failure =>
    rw [MockRequest.generate_eq, hs] at h
    cases h
  | ok started =>
    obtain ⟨operation, schema, root⟩ := started
    rw [MockRequest.generate_eq_expandAll Registry.isConstant_empty calls hs] at h
    let context : Walk.Context := ⟨schema, .empty, request.document.fragments⟩
    have hu : context.Unbound := fun _ => rfl
    cases hall : Walk.expandAll context (Walk.expandFragment context []) root []
        operation.selections with
    | error error =>
      rw [hall] at h
      cases h
    | ok mock =>
      rw [hall] at h
      cases h
      refine ⟨operation, schema, root, mock, rfl, rfl, fun type set inner hstands => ?_⟩
      have htells := Walk.tellsTypes_of_expands hu (hstands.expands hu hall)
      refine ⟨htells, fun key key' route route' hr hr' hn hn' hsame => ?_⟩
      rw [htells.typenames key route hr hn, htells.typenames key' route' hr' hn', hsame]

namespace Walk.Sample

/-- Users are nodes. -/
def nodes : TypeSystem where
  types := [
    BuiltIn.object "Query" [BuiltIn.plain "me" (.named "User")],
    BuiltIn.define "Node" (.interface [] [BuiltIn.plain "id" (.nonNullNamed "ID")]),
    BuiltIn.define "User" (.object ["Node"] [BuiltIn.plain "id" (.nonNullNamed "ID")])] ++
    BuiltIn.types
  directives := BuiltIn.directives
  roots := [(.query, "Query")]
  applied := []

def typename (key : Name) : Selection := .field (some key) "__typename" [] [] []

/-- A user, and the same user as a node. -/
def bothWays : List Selection :=
  [field "__typename" [], .inline (some "Node") [] [typename "kind"]]

def asNode : Operation := ⟨.query, none, [], [], [field "me" bothWays]⟩

def own : Fragment := ⟨"own", "User", [], [typename "own"]⟩

/-- A user is asked for its type directly, in fragments on users and on nodes, and inside both. -/
def nodesRequest : MockRequest where
  document := [
    .operation ⟨.query, none, [], [], [
      field "me" [
        field "__typename" [],
        .inline (some "Node") [] [
          typename "kind", .inline none [] [typename "again"], spread "own"]]]⟩,
    .fragment own]
  acquired := .ok (.built nodes)
  rules := []
  operation := none

def nodesMock : Json :=
  .object [("me", .object [("__typename", .string "User"), ("kind", .string "Node"),
    ("again", .string "Node"), ("own", .string "User")])]

theorem generate_typenames_nodes :
    (nodesRequest.generate .empty []).1 = .ok nodesMock ∧
    ∃ operation schema root mock, nodesRequest.start = .ok (operation, schema, root) ∧
      nodesMock = .object mock ∧
      let context : Walk.Context := ⟨schema, .empty, nodesRequest.document.fragments⟩
      ∀ type set inner, Stands context root operation.selections mock type set inner →
        TellsTypes context type set inner ∧
        ∀ key key' route route', source? context type set key = some route →
          source? context type set key' = some route' → route.name = "__typename" →
          route'.name = "__typename" → route.condition? = route'.condition? →
          inner.get? key = inner.get? key' := by
  have h : (nodesRequest.generate .empty []).1 = .ok nodesMock := rfl
  exact ⟨h, generate_typenames h⟩

theorem nodes_load : (SchemaSource.built nodes).load .all = .ok nodes.withoutUnusedScalars :=
  SchemaSource.load_of_violations (List.isEmpty_iff.mp (by decide +kernel))

theorem asNode_check :
    checkDocument .all nodes.withoutUnusedScalars [.operation asNode] = .ok () := by
  have hv : Document.violations nodes.withoutUnusedScalars [.operation asNode] = [] := by
    have hreached : reachedBy [] asNode = [] := reachedBy_nil rfl
    have hoperations : Document.resolvedOperations nodes.withoutUnusedScalars
        [.operation asNode] = [(asNode, "Query")] := rfl
    have hfragments : (Document.fragments [.operation asNode]).map
        (·.resolved nodes.withoutUnusedScalars) = [] := rfl
    rw [Document.violations, hoperations, hfragments, resolvedViolations]
    simp only [List.flatMap_cons, List.flatMap_nil, operationViolations, hreached]
    exact List.isEmpty_iff.mp (by decide +kernel)
  exact checkDocument_of_violations .all hv

end Walk.Sample

/-- **A user is a node where it is asked as one.** A document that passes both checks selects
`__typename` twice on an object of type `User`, and the entries differ. -/
theorem generate_typename_node :
    let context : Walk.Context := ⟨Walk.Sample.nodes.withoutUnusedScalars, .empty, []⟩
    let user : Json.Object := [("__typename", .string "User"), ("kind", .string "Node")]
    let mock : Json.Object := [("me", .object user)]
    generate (m := Id) [.operation Walk.Sample.asNode] (pure (.ok (.built Walk.Sample.nodes)))
      .standard [] = pure (.ok (.object mock), []) ∧
    context.schema.kind? "User" = some .object ∧
    Walk.Stands context "Query" Walk.Sample.asNode.selections mock "User" Walk.Sample.bothWays
      user ∧
    ∃ route, Walk.source? context "User" Walk.Sample.bothWays "kind" = some route ∧
      route.name = "__typename" ∧ user.get? "kind" ≠ some (.string "User") := by
  intro context user mock
  refine ⟨?_, by decide, ?_, ?_⟩
  · rw [generate_eq_walk [] rfl Walk.Sample.nodes_load Walk.Sample.asNode_check rfl]
    rfl
  · have hme : Walk.source? context "Query" Walk.Sample.asNode.selections "me" =
        some ⟨none, "me", "me", [], Walk.Sample.bothWays⟩ := rfl
    exact .entry .whole hme rfl rfl
  · refine ⟨⟨some "Node", "kind", "__typename", [], []⟩, rfl, rfl, ?_⟩
    have hkind : user.get? "kind" = some (.string "Node") := rfl
    rw [hkind]
    simp

end MockGraph
