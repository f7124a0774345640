import MockGraph.Json.Number
import MockGraph.TypeSystem.BuiltIn
import MockGraph.Validation.Violation

/-!
# `Validation/Value`: which values fit a type

A literal fits a type when it can be coerced to it. A scalar that is not built in takes every literal
but the null where that is excluded, and what is inside an object literal for one is not looked at. A
value that is no list fits a list type as its only item. Nothing is wrong with a value where the type
is not defined.

A variable that is an argument as a whole fits where its declared type is at least as strict as the
type that is expected; a default value on either side makes up for a missing non-null mark. Of a
variable inside a literal only the named type inside its lists and marks has to be the expected one.
-/

set_option autoImplicit false

namespace MockGraph

open Syntax

/-! ## 1. Variables -/

mutual

def Syntax.Value.usedVariables : Value → List Name
  | .var name => [name]
  | .list items => itemVariables items
  | .object fields => fieldVariables fields
  | _ => []

def Syntax.Value.itemVariables : List Value → List Name
  | [] => []
  | item :: rest => item.usedVariables ++ itemVariables rest

/-- The variables in the fields of an object. -/
def Syntax.Value.fieldVariables : List (Name × Value) → List Name
  | [] => []
  | (_, value) :: rest => value.usedVariables ++ fieldVariables rest

end

/-- Whether every value of the first type is one of the second. -/
def Syntax.TypeRef.fits : TypeRef → TypeRef → Bool
  | .named a, .named b | .nonNullNamed a, .named b | .nonNullNamed a, .nonNullNamed b => a = b
  | .list a, .list b | .nonNullList a, .list b | .nonNullList a, .nonNullList b => a.fits b
  | _, _ => false

/-- Whether a variable may stand where a type is expected. -/
def Syntax.VariableDefinition.fits (declared : VariableDefinition) (type : TypeRef)
    (hasDefault : Bool) : Bool :=
  if type.isNonNull && !declared.type.isNonNull then
    (hasDefault || declared.default.isSome) && declared.type.fits type.nullable
  else declared.type.fits type

/-! ## 2. Literals without parts -/

/-- Whether an integer numeral fits 32 bits. -/
def isShortInt (numeral : String) : Bool :=
  match Number.read? numeral.toList with
  | some (.integer n _) => -2147483648 ≤ n && n < 2147483648
  | some (.double x) => x.mantissa = 0
  | none => false

/-- Whether a numeral stands for a finite number. -/
def isFinite (numeral : String) : Bool := (Number.read? numeral.toList).isSome

/-- Whether a literal without parts fits a built-in scalar. -/
def builtInAccepts (name : Name) : Value → Bool
  | .int numeral =>
    name = "ID" || (name = "Int" && isShortInt numeral) || (name = "Float" && isFinite numeral)
  | .float numeral => name = "Float" && isFinite numeral
  | .string _ => name = "String" || name = "ID"
  | .boolean _ => name = "Boolean"
  | _ => false

/-- Whether a type is a scalar that is not built in. -/
def isCustomScalar (type : TypeDefinition) : Bool :=
  type.kind = .scalar && !BuiltIn.isScalar type.name

/-- Whether a literal without parts fits a type. -/
def accepts (type : TypeDefinition) (value : Value) : Bool :=
  match type.kind with
  | .scalar => isCustomScalar type || builtInAccepts type.name value
  | .enum =>
    match value with
    | .enum member => type.enumValues.any (·.name = member)
    | _ => false
  | _ => false

/-! ## 3. Values -/

/-- A finding at a place, or none. -/
def findingIf (condition : Bool) (violation : Violation) : List Violation :=
  if condition then [violation] else []

/-- What is wrong with a variable where a value of a type that is defined is expected. -/
def variableViolations (scope : List VariableDefinition) (definition : TypeDefinition)
    (type : TypeRef) (name : Name) : List Violation :=
  match scope.find? (·.name = name) with
  | none => [.undefinedVariable name]
  | some declared =>
    findingIf (!definition.isInput || declared.type.innerName ≠ type.innerName)
      (.variablePosition name type.render)

/-- The fields that an object literal has to have and lacks. Of a field that is given several times
none may be null. -/
def missingFields (definition : TypeDefinition) (fields : List (Name × Value)) : List Violation :=
  definition.inputFields.flatMap fun input =>
    let given := fields.filter fun (name, _) => name = input.name
    findingIf (input.isRequired && (given.isEmpty || given.any (·.2.isNull)))
      (.missingArgument definition.name input.name)

mutual

/-- What is wrong with a value where the given type is expected. -/
def valueViolations (schema : TypeSystem) (scope : List VariableDefinition) (type : TypeRef) :
    Value → List Violation
  | .var name =>
    match schema.type? type.innerName with
    | none => []
    | some definition => variableViolations scope definition type name
  | .null =>
    findingIf (type.isNonNull && (schema.type? type.innerName).isSome) (.wrongValue type.render)
  | .list items =>
    match schema.type? type.innerName with
    | none => []
    | some definition =>
      if (type.item?.isSome || isCustomScalar definition) && definition.isInput then
        itemViolations schema scope (type.item?.getD type) items
      else [.wrongValue type.render]
  | .object fields =>
    match schema.type? type.innerName with
    | none => []
    | some definition =>
      if isCustomScalar definition then []
      else if definition.kind = .inputObject then
        missingFields definition fields ++ fieldViolations schema scope definition [] fields
      else [.wrongValue type.render]
  | value =>
    match schema.type? type.innerName with
    | none => []
    | some definition => findingIf (!accepts definition value) (.wrongValue type.render)

/-- What is wrong with the items of a list. -/
def itemViolations (schema : TypeSystem) (scope : List VariableDefinition) (type : TypeRef) :
    List Value → List Violation
  | [] => []
  | item :: rest =>
    valueViolations schema scope type item ++ itemViolations schema scope type rest

/-- What is wrong with the fields of an object. Of several with one name the first counts. -/
def fieldViolations (schema : TypeSystem) (scope : List VariableDefinition)
    (definition : TypeDefinition) (seen : List Name) : List (Name × Value) → List Violation
  | [] => []
  | (name, value) :: rest =>
    (match definition.inputFields.find? (·.name = name) with
      | none => [.unknownArgument definition.name name]
      | some input =>
        if seen.contains name then [] else valueViolations schema scope input.type value) ++
      fieldViolations schema scope definition (name :: seen) rest

end

end MockGraph
