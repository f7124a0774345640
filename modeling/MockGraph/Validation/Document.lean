import MockGraph.Validation.Deferral
import MockGraph.Validation.Merge

/-!
# `Validation/Document`: the rules for documents

`Document.violations` lists what the rules of October 2021 find wrong with a document of operations
and fragments. Every operation is checked, together with the fragments that it reaches, because a
fragment may use the variables of each of them. A fragment that is spread nowhere is wrong in any
case; of one that only fragments spread that no operation reaches, nothing more is checked.

Fields on types that are not defined are left out before anything is checked, together with all that
is in them.
-/

set_option autoImplicit false

namespace MockGraph

open Syntax

/-! ## 1. Variables -/

/-- What is wrong with the type and default value of a variable. -/
def variableTypeViolations (schema : TypeSystem) (declared : VariableDefinition) :
    List Violation :=
  match schema.type? declared.type.innerName with
  | none => [.undefinedType declared.type.innerName]
  | some type =>
    if type.isInput then
      (declared.default.map (valueViolations schema [] declared.type)).getD []
    else [.variableNotInput declared.name]

/-- What is wrong with the declarations of variables. -/
def variableDefinitionViolations (schema : TypeSystem) (scope : List VariableDefinition) :
    List Violation :=
  (repeatedNames (scope.map (·.name))).map .duplicateVariable ++
  scope.flatMap fun declared =>
    variableTypeViolations schema declared ++
      directiveViolations schema [] .variableDefinition declared.directives

/-- The variables that are declared but not used. -/
def unusedVariables (scope : List VariableDefinition) (used : List Name) : List Violation :=
  ((scope.map (·.name)).filter fun name => !used.contains name).map .unusedVariable

/-! ## 2. Fragments -/

/-- How many fragments may be spread inside each other. -/
def maxFragments : Nat := 100

/-- Whether a fragment spreads itself, or others too deep inside each other. -/
def fragmentStrays (fragments : List Fragment) (fragment : Fragment) : Bool :=
  strays (fragmentSpreads fragments) id maxFragments fragment.name

/-- What is wrong with a fragment in an operation that has the given variables. -/
def fragmentViolations (schema : TypeSystem) (fragments : List Fragment)
    (scope : List VariableDefinition) (fragment : Fragment) : List Violation :=
  conditionViolations schema fragment.typeCondition ++
  findingIf (fragmentStrays fragments fragment) (.fragmentCycle fragment.name) ++
  directiveViolations schema scope .fragmentDefinition fragment.directives ++
  selectionsViolations schema fragments scope fragment.typeCondition fragment.selections

/-- What is wrong with the names of fragments, where `used` are the names that are spread. -/
def fragmentNameViolations (names used : List Name) : List Violation :=
  (repeatedNames names).map .duplicateFragment ++
  (names.filter fun name => !used.contains name).map .unusedFragment

/-! ## 3. Operations -/

/-- The place of a directive on an operation. -/
def Syntax.OperationKind.location : OperationKind → DirectiveLocation
  | .query => .query
  | .mutation => .mutation
  | .subscription => .subscription

/-- Whether a directive makes a selection conditional. -/
def isConditional (directives : List Directive) : Bool :=
  directives.any fun directive => directive.name = "skip" || directive.name = "include"

mutual

/-- Whether a selection is conditional, or one inside it on the same level. -/
def hasCondition (spread : Name → Bool) : Selection → Bool
  | .field _ _ _ directives _ => isConditional directives
  | .spread name directives => isConditional directives || spread name
  | .inline _ directives nested => isConditional directives || haveCondition spread nested

/-- Whether one of several selections is conditional, or one inside it on the same level. -/
def haveCondition (spread : Name → Bool) : List Selection → Bool
  | [] => false
  | selection :: rest => hasCondition spread selection || haveCondition spread rest

end

/-- Whether a fragment has conditional selections on its own level, where at most `depth` fragments
are entered inside each other. -/
def fragmentHasCondition (fragments : List Fragment) : Nat → Name → Bool
  | 0, _ => false
  | depth + 1, name =>
    (fragmentNamed? fragments name).any fun fragment =>
      haveCondition (fragmentHasCondition fragments depth) fragment.selections

/-- What is wrong with the root fields of a subscription. -/
def subscriptionViolations (fragments : List Fragment) (selections : List Selection) :
    List Violation :=
  let fields := fieldsAt fragments (depthBound fragments selections) [] [("", selections)]
  findingIf (fields.length > 1) .subscriptionFields ++
  findingIf (fields.any fun field => ["__typename", "__schema", "__type"].contains field.name)
    .subscriptionIntrospection ++
  findingIf (haveCondition (fragmentHasCondition fragments fragments.length) selections)
    .subscriptionCondition

def reachedBy (fragments : List Fragment) (operation : Operation) : List Fragment :=
  (reachableFragments fragments operation.selections).filterMap (fragmentNamed? fragments)

/-- The variables that an operation uses, in the fragments that it reaches too. -/
def variablesUsed (operation : Operation) (reached : List Fragment) : List Name :=
  directiveVariables operation.directives ++ Selection.usedVariablesIn operation.selections ++
  reached.flatMap fun fragment =>
    directiveVariables fragment.directives ++ Selection.usedVariablesIn fragment.selections

/-- What is wrong with an operation as a subscription. -/
def subscriptionRootViolations (schema : TypeSystem) (fragments reached : List Fragment)
    (operation : Operation) (root : Name) : List Violation :=
  subscriptionViolations fragments operation.selections ++
  subscriptionDeferrals (Selection.deferralsIn schema root operation.selections ++
    reached.flatMap (fragmentDeferrals schema))

/-- What is wrong with an operation on the type `root`. -/
def operationViolations (schema : TypeSystem) (fragments : List Fragment) (operation : Operation)
    (root : Name) : List Violation :=
  let scope := operation.variableDefinitions
  let reached := reachedBy fragments operation
  directiveViolations schema scope operation.kind.location operation.directives ++
  variableDefinitionViolations schema scope ++
  selectionsViolations schema fragments scope root operation.selections ++
  reached.flatMap (fragmentViolations schema fragments scope) ++
  unusedVariables scope (variablesUsed operation reached) ++
  (if reached.any (fragmentStrays fragments) then []
    else mergeViolations schema fragments root operation.selections) ++
  (if operation.kind = .subscription then
    subscriptionRootViolations schema fragments reached operation root else [])

/-- What is wrong with the names of operations. -/
def operationNameViolations (operations : List Operation) : List Violation :=
  findingIf (operations.length > 1 && operations.any (·.name.isNone)) .anonymousNotAlone ++
  (repeatedNames (operations.filterMap (·.name))).map .duplicateOperation

/-! ## 4. Documents -/

/-- What a definition that belongs into a schema defines or extends. -/
def Syntax.Definition.schemaName? : Definition → Option Name
  | .operation _ | .fragment _ => none
  | .schema _ | .extendSchema _ => some "schema"
  | .directive definition => some definition.name
  | .type definition | .extendType definition => some definition.name

/-- What is wrong with an operation if the schema has no root type for it. -/
def missingRoots (schema : TypeSystem) (operations : List Operation) : List Violation :=
  (operations.filter fun operation => (schema.root? operation.kind).isNone).map fun operation =>
    .missingRoot operation.kind.keyword

/-- The operations of a document with their root types, without the fields on types that are not
defined. -/
def Syntax.Document.resolvedOperations (schema : TypeSystem) (document : Document) :
    List (Operation × Name) :=
  document.operations.filterMap fun operation =>
    (schema.root? operation.kind).map fun root =>
      ({ operation with selections := Selection.resolvedIn schema root operation.selections }, root)

/-- What is wrong with the fragments and operations of a document without the fields on types that are
not defined. -/
def resolvedViolations (schema : TypeSystem) (operations : List (Operation × Name))
    (fragments : List Fragment) : List Violation :=
  let used := (operations.flatMap fun (operation, _) => Selection.spreadsIn operation.selections) ++
    fragments.flatMap fun fragment => Selection.spreadsIn fragment.selections
  let deferrals := (operations.flatMap fun (operation, root) =>
    Selection.deferralsIn schema root operation.selections) ++
    fragments.flatMap (fragmentDeferrals schema)
  fragmentNameViolations (fragments.map (·.name)) used ++
  labelViolations deferrals ++ deferredRoots schema deferrals ++
  operations.flatMap fun (operation, root) => operationViolations schema fragments operation root

/-- What is wrong with a document of operations and fragments. -/
def Syntax.Document.violations (schema : TypeSystem) (document : Document) : List Violation :=
  (document.filterMap Definition.schemaName?).map .definitionInDocument ++
  operationNameViolations document.operations ++
  missingRoots schema document.operations ++
  resolvedViolations schema (document.resolvedOperations schema)
    (document.fragments.map (·.resolved schema))

end MockGraph
