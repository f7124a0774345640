import MockGraph.Validation.Selection

/-!
# `Validation/Merge`: fields that share a response key

Selections that put several fields under one response key have to be mergeable. Two fields are when

* they have the same shape: the same lists and non-null marks around the same leaf type, or around
  two composite types whose selections, taken together, have the same shapes key by key; and
* they are the same field with the same arguments, unless their outer types are two different object
  types, and what is selected on both is mergeable again.

Both relations are checked for whole groups of fields at once, each field against the first. Which
field is the first makes a difference, because not every relation below is symmetric: two lists count
as the same where one begins like the other. So the fields are collected in a fixed order, level by
level: those in a selection set itself come before those in its fragments.

Both relations follow the fields down, and fields may stand inside each other at most `maxFieldDepth`
deep.
-/

set_option autoImplicit false

namespace MockGraph

open Syntax

/-! ## 1. The fields of selections -/

/-- A field of a selection set with the type it is selected on. -/
structure Occurrence where
  outer : Name
  key : Name
  name : Name
  arguments : List Argument
  nested : List Selection

/-- The field that a selection on the type `outer` is, if it is one. -/
def occurrence? (outer : Name) : Selection → Option Occurrence
  | .field alias? name arguments _ nested => some ⟨outer, alias?.getD name, name, arguments, nested⟩
  | _ => none

/-- The selection sets of the fragments among selections, each with its type, and the names of all
fragments that were spread. A fragment that was spread before adds nothing. -/
def innerSets (fragments : List Fragment) (spread : List Name) :
    List (Name × Selection) → List (Name × List Selection) × List Name
  | [] => ([], spread)
  | (outer, .inline condition _ nested) :: rest =>
    let (sets, spread) := innerSets fragments spread rest
    ((condition.getD outer, nested) :: sets, spread)
  | (_, .spread name _) :: rest =>
    if spread.contains name then innerSets fragments spread rest
    else
      let (sets, spread) := innerSets fragments (name :: spread) rest
      match fragmentNamed? fragments name with
      | none => (sets, spread)
      | some fragment => ((fragment.typeCondition, fragment.selections) :: sets, spread)
  | _ :: rest => innerSets fragments spread rest

/-- The fields of several selection sets and of the fragments in them, at most `depth` levels down. -/
def fieldsAt (fragments : List Fragment) :
    Nat → List Name → List (Name × List Selection) → List Occurrence
  | 0, _, _ => []
  | _, _, [] => []
  | depth + 1, spread, sets =>
    let here := sets.flatMap fun (outer, set) => set.map (outer, ·)
    let (inner, spread) := innerSets fragments spread here
    (here.filterMap fun (outer, selection) => occurrence? outer selection) ++
      fieldsAt fragments depth spread inner

/-- Lists of fields by a key, in the order of the first of each. -/
def groupBy (key : Occurrence → Name) (fields : List Occurrence) : List (List Occurrence) :=
  (fields.map key).eraseDups.map fun k => fields.filter fun field => key field = k

mutual

/-- How many selections a selection holds, itself included. -/
def Syntax.Selection.count : Selection → Nat
  | .field _ _ _ _ nested => 1 + countAll nested
  | .spread _ _ => 1
  | .inline _ _ nested => 1 + countAll nested

/-- How many selections a list holds at any depth. -/
def Syntax.Selection.countAll : List Selection → Nat
  | [] => 0
  | selection :: rest => selection.count + countAll rest

end

/-- A number that is larger than the levels of fragments inside each other, unless a fragment spreads
itself. -/
def depthBound (fragments : List Fragment) (selections : List Selection) : Nat :=
  Selection.countAll (selections ++ fragments.flatMap (·.selections)) + 1

/-! ## 2. Same values -/

mutual

/-- Whether a value is the same as another one. Every field of an object has to be among those of the
other one, of which there are as many. -/
def sameValue : Value → Value → Bool
  | .var a, .var b => a = b
  | .int a, .int b => a = b
  | .float a, .float b => a = b
  | .string a, .string b => a = b
  | .boolean a, .boolean b => a = b
  | .null, .null => true
  | .enum a, .enum b => a = b
  | .list a, .list b => sameItems a b
  | .object a, .object b => a.length = b.length && sameFields a b
  | _, _ => false

/-- Whether two lists hold the same values as far as both go. -/
def sameItems : List Value → List Value → Bool
  | a :: as, b :: bs => sameValue a b && sameItems as bs
  | _, _ => true

/-- Whether every field is also among the others. -/
def sameFields : List (Name × Value) → List (Name × Value) → Bool
  | [], _ => true
  | (name, value) :: rest, others =>
    (match others.find? (·.1 = name) with
      | none => false
      | some other => sameValue value other.2) && sameFields rest others

end

/-- Whether arguments are the same as those of the first field; their order makes no difference. -/
def sameArguments (first arguments : List Argument) : Bool :=
  (first.all fun expected =>
    (arguments.find? (·.name = expected.name)).any fun argument =>
      sameValue argument.value expected.value) &&
  arguments.all fun argument => first.any (·.name = argument.name)

/-! ## 3. Same shapes -/

/-- How many fields with selections may stand inside each other. -/
def maxFieldDepth : Nat := 128

/-- What fields are collected from, and how many levels of fragments there can be. -/
structure MergeContext where
  schema : TypeSystem
  fragments : List Fragment
  bound : Nat

/-- The type of a field where it stands. -/
def Occurrence.type? (schema : TypeSystem) (field : Occurrence) : Option TypeRef :=
  ((schema.type? field.outer).bind fun type => schema.fieldOn? type field.name).map (·.type)

/-- The fields of several selection sets under each of their keys. A field that does not exist is
left out. -/
def keyGroups (context : MergeContext) (sets : List (Name × List Selection)) :
    List (List Occurrence) :=
  groupBy (·.key) ((fieldsAt context.fragments context.bound [] sets).filter fun field =>
    (field.type? context.schema).isSome)

/-- Whether two named types have the same shape: a leaf type has that of itself only, all composite
types have one, and of a type that is not defined nothing is known. -/
def sameNamed (schema : TypeSystem) (a b : Name) : Bool :=
  match schema.type? a, schema.type? b with
  | some typeA, some typeB =>
    if typeA.isLeaf || typeB.isLeaf then a = b else typeA.isComposite && typeB.isComposite
  | _, _ => true

/-- Whether two types have the same lists and marks around named types of the same shape. -/
def sameShape (schema : TypeSystem) : TypeRef → TypeRef → Bool
  | .named a, .named b | .nonNullNamed a, .nonNullNamed b => sameNamed schema a b
  | .list a, .list b | .nonNullList a, .nonNullList b => sameShape schema a b
  | _, _ => false

/-- The selection sets of fields, each on the type of its field. -/
def nestedSets (schema : TypeSystem) (fields : List Occurrence) : List (Name × List Selection) :=
  fields.filterMap fun field =>
    (field.type? schema).map fun type => (type.innerName, field.nested)

/-- What is wrong with the selection sets of fields that stand too deep. -/
def depthViolations (sets : List (Name × List Selection)) : List Violation :=
  findingIf (sets.any fun (_, set) => !set.isEmpty) .fieldsTooDeep

/-- Whether the types of all fields have the shape of the first one's. -/
def uniformShape (schema : TypeSystem) (fields : List Occurrence) : Bool :=
  match fields.filterMap (·.type? schema) with
  | [] => true
  | first :: rest => rest.all (sameShape schema first)

/-- The keys under which fields have different shapes, where `depth` levels are left. -/
def shapeConflicts (context : MergeContext) :
    Nat → List (Name × List Selection) → List Violation
  | 0, sets => depthViolations sets
  | depth + 1, sets =>
    (keyGroups context sets).flatMap fun group =>
      if uniformShape context.schema group then
        shapeConflicts context depth (nestedSets context.schema group)
      else (group.head?.map fun field => .conflictingFields field.key).toList

/-! ## 4. Same fields -/

/-- Whether all fields are the first one, with its arguments. -/
def uniformField (fields : List Occurrence) : Bool :=
  match fields with
  | [] => true
  | first :: rest => rest.all fun field =>
    field.name = first.name && sameArguments first.arguments field.arguments

/-- The groups of fields that can apply to the same object. -/
def togetherGroups (schema : TypeSystem) (fields : List Occurrence) : List (List Occurrence) :=
  let onObject := fun field : Occurrence => schema.kind? field.outer = some .object
  let concrete := groupBy (·.outer) (fields.filter onObject)
  let abstract := fields.filter fun field => !onObject field
  if concrete.isEmpty then [abstract] else concrete.map (· ++ abstract)

/-- The keys under which different fields apply to the same object, where `depth` levels are left. -/
def fieldConflicts (context : MergeContext) :
    Nat → List (Name × List Selection) → List Violation
  | 0, sets => depthViolations sets
  | depth + 1, sets =>
    (keyGroups context sets).flatMap fun group =>
      (togetherGroups context.schema group).flatMap fun together =>
        if uniformField together then
          fieldConflicts context depth (nestedSets context.schema together)
        else (together.head?.map fun field => .conflictingFields field.key).toList

/-! ## 5. All conflicts -/

/-- The keys in selections on the type `outer` under which fields cannot be merged. No fragment may
spread itself. -/
def mergeViolations (schema : TypeSystem) (fragments : List Fragment) (outer : Name)
    (selections : List Selection) : List Violation :=
  let context : MergeContext := ⟨schema, fragments, depthBound fragments selections⟩
  let sets := [(outer, selections)]
  shapeConflicts context (maxFieldDepth + 1) sets ++ fieldConflicts context (maxFieldDepth + 1) sets

end MockGraph
