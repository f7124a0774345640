import MockGraph.Reach
import MockGraph.Validation.Directive

/-!
# `Validation/Selection`: the rules for selections

Selections are checked on the type they are made on: every field exists there and gets its arguments,
composite fields have selections and leaf fields have none, and a fragment is on a composite type of
which the outer type can be.

Where the outer type is not defined the schema is to blame for its fields. So the rules are about
`Selection.resolved`, what is left of a selection without such fields and everything in them.
-/

set_option autoImplicit false

namespace MockGraph

open Syntax

/-! ## 1. Fields on types that are not defined -/

mutual

/-- A selection on the type `outer` without the fields on types that are not defined. -/
def Syntax.Selection.resolved (schema : TypeSystem) (outer : Name) : Selection → List Selection
  | .field alias? name arguments directives nested =>
    match schema.field outer name with
    | .error (.unknownType _) => []
    | .error _ => [.field alias? name arguments directives []]
    | .ok definition =>
      [.field alias? name arguments directives
        (resolvedIn schema definition.type.innerName nested)]
  | .spread name directives => [.spread name directives]
  | .inline condition directives nested =>
    [.inline condition directives (resolvedIn schema (condition.getD outer) nested)]

/-- Selections on the type `outer` without the fields on types that are not defined. -/
def Syntax.Selection.resolvedIn (schema : TypeSystem) (outer : Name) :
    List Selection → List Selection
  | [] => []
  | selection :: rest => selection.resolved schema outer ++ resolvedIn schema outer rest

end

/-- A fragment without the fields on types that are not defined. -/
def Syntax.Fragment.resolved (schema : TypeSystem) (fragment : Fragment) : Fragment :=
  { fragment with
    selections := Selection.resolvedIn schema fragment.typeCondition fragment.selections }

/-! ## 2. What selections mention -/

mutual

/-- The fragments that a selection spreads, at any depth. -/
def Syntax.Selection.spreads : Selection → List Name
  | .field _ _ _ _ nested => spreadsIn nested
  | .spread name _ => [name]
  | .inline _ _ nested => spreadsIn nested

/-- The fragments that selections spread, at any depth. -/
def Syntax.Selection.spreadsIn : List Selection → List Name
  | [] => []
  | selection :: rest => selection.spreads ++ spreadsIn rest

end

mutual

/-- The variables in a selection, at any depth. -/
def Syntax.Selection.usedVariables : Selection → List Name
  | .field _ _ arguments directives nested =>
    argumentVariables arguments ++ directiveVariables directives ++ usedVariablesIn nested
  | .spread _ directives => directiveVariables directives
  | .inline _ directives nested => directiveVariables directives ++ usedVariablesIn nested

/-- The variables in selections, at any depth. -/
def Syntax.Selection.usedVariablesIn : List Selection → List Name
  | [] => []
  | selection :: rest => selection.usedVariables ++ usedVariablesIn rest

end

/-- The fragment of a name; of several the first. -/
def fragmentNamed? (fragments : List Fragment) (name : Name) : Option Fragment :=
  fragments.find? (·.name = name)

def fragmentSpreads (fragments : List Fragment) (name : Name) : List Name :=
  match fragmentNamed? fragments name with
  | none => []
  | some fragment => (Selection.spreadsIn fragment.selections).eraseDups

/-- The fragments that selections spread, in fragments too. -/
def reachableFragments (fragments : List Fragment) (selections : List Selection) : List Name :=
  reach (fragmentSpreads fragments) (fragments.map (·.name)).eraseDups
    (Selection.spreadsIn selections)

/-! ## 3. Type conditions -/

/-- The object types that a value of a type can have. -/
def TypeSystem.possibleTypes (schema : TypeSystem) (type : TypeDefinition) : List Name :=
  match type.kind with
  | .object => [type.name]
  | .union => type.members
  | .interface =>
    (schema.types.filter fun t => t.kind = .object && t.interfaces.contains type.name).map (·.name)
  | _ => []

/-- Whether selections on the type `condition` can apply to a value of the type `outer`. On the outer
type itself they always can, even if no object type implements it. -/
def TypeSystem.overlap (schema : TypeSystem) (condition outer : TypeDefinition) : Bool :=
  condition.name = outer.name ||
    (schema.possibleTypes outer).any (schema.possibleTypes condition).contains

/-- What is wrong with a type condition as such. -/
def conditionViolations (schema : TypeSystem) (condition : Name) : List Violation :=
  match schema.type? condition with
  | none => [.undefinedType condition]
  | some type => findingIf (!type.isComposite) (.conditionNotComposite condition)

/-- What is wrong with a type condition inside selections on the type `outer`. -/
def spreadViolations (schema : TypeSystem) (outer condition : Name) : List Violation :=
  match schema.type? outer, schema.type? condition with
  | some outer, some condition =>
    findingIf (condition.isComposite && !schema.overlap condition outer)
      (.impossibleSpread condition.name outer.name)
  | _, _ => []

/-! ## 4. Fields -/

/-- Whether a field has selections exactly when its type has fields to select. -/
def nestingViolations (schema : TypeSystem) (field type : Name) (nested : List Selection) :
    List Violation :=
  match schema.type? type with
  | none => []
  | some type =>
    if type.isComposite then findingIf nested.isEmpty (.missingSelections field)
    else
      findingIf (!nested.isEmpty && type.isLeaf) (.selectionsOnLeaf field)

/-- What is wrong with a field on a type, apart from what is selected on it. -/
def fieldUseViolations (schema : TypeSystem) (scope : List VariableDefinition)
    (definition : FieldDefinition) (arguments : List Argument) (nested : List Selection) :
    List Violation :=
  argumentViolations schema scope definition.name definition.arguments arguments ++
  nestingViolations schema definition.name definition.type.innerName nested

/-! ## 5. Selections -/

mutual

/-- What is wrong with a selection on the type `outer`. -/
def selectionViolations (schema : TypeSystem) (fragments : List Fragment)
    (scope : List VariableDefinition) (outer : Name) : Selection → List Violation
  | .field _ name arguments directives nested =>
    directiveViolations schema scope .field directives ++
    match schema.field outer name with
    | .error _ => [.unknownField outer name]
    | .ok definition =>
      fieldUseViolations schema scope definition arguments nested ++
      selectionsViolations schema fragments scope definition.type.innerName nested
  | .spread name directives =>
    directiveViolations schema scope .fragmentSpread directives ++
    match fragmentNamed? fragments name with
    | none => [.undefinedFragment name]
    | some fragment => spreadViolations schema outer fragment.typeCondition
  | .inline none directives nested =>
    directiveViolations schema scope .inlineFragment directives ++
    selectionsViolations schema fragments scope outer nested
  | .inline (some condition) directives nested =>
    directiveViolations schema scope .inlineFragment directives ++
    conditionViolations schema condition ++ spreadViolations schema outer condition ++
    selectionsViolations schema fragments scope condition nested

/-- What is wrong with selections on the type `outer`. -/
def selectionsViolations (schema : TypeSystem) (fragments : List Fragment)
    (scope : List VariableDefinition) (outer : Name) : List Selection → List Violation
  | [] => []
  | selection :: rest =>
    selectionViolations schema fragments scope outer selection ++
      selectionsViolations schema fragments scope outer rest

end

end MockGraph
