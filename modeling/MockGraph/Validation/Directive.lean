import MockGraph.TypeSystem.Build
import MockGraph.Validation.Value

/-!
# `Validation/Directive`: arguments and directives, wherever they stand

Fields and directives take arguments by the same rules: each is declared, stands once and fits its
type, and none that is required is missing or null. A directive is defined, stands where its
definition lets it, and is not repeated unless it may be.
-/

set_option autoImplicit false

namespace MockGraph

open Syntax

/-! ## 1. Arguments -/

def argumentVariables (arguments : List Argument) : List Name :=
  arguments.flatMap fun argument => argument.value.usedVariables

/-- Whether a variable that is an argument as a whole may not stand there. -/
def misfits (scope : List VariableDefinition) (input : InputValue) : Value → Bool
  | .var name =>
    (scope.find? (·.name = name)).any fun declared =>
      !declared.fits input.type input.default.isSome
  | _ => false

/-- What is wrong with one argument of the field or directive `place`. -/
def argumentViolation (schema : TypeSystem) (scope : List VariableDefinition) (place : Name)
    (declared : List InputValue) (argument : Argument) : List Violation :=
  match declared.find? (·.name = argument.name) with
  | none => [.unknownArgument place argument.name]
  | some input =>
    findingIf (misfits scope input argument.value)
      (.variablePosition argument.name input.type.render) ++
    valueViolations schema scope input.type argument.value

/-- What is missing among arguments. -/
def missingArguments (place : Name) (declared : List InputValue) (arguments : List Argument) :
    List Violation :=
  declared.flatMap fun input =>
    let given := match arguments.find? (·.name = input.name) with
      | none => false
      | some argument => !argument.value.isNull
    findingIf (input.isRequired && !given) (.missingArgument place input.name)

/-- What is wrong with arguments. -/
def argumentViolations (schema : TypeSystem) (scope : List VariableDefinition) (place : Name)
    (declared : List InputValue) (arguments : List Argument) : List Violation :=
  (repeatedNames (arguments.map (·.name))).map .duplicateArgument ++
  arguments.flatMap (argumentViolation schema scope place declared) ++
  missingArguments place declared arguments

/-! ## 2. Directives -/

def directiveVariables (directives : List Directive) : List Name :=
  directives.flatMap fun directive => argumentVariables directive.arguments

/-- What is wrong with one directive at a place of the given sort. -/
def directiveViolation (schema : TypeSystem) (scope : List VariableDefinition)
    (location : DirectiveLocation) (directive : Directive) : List Violation :=
  match schema.directive? directive.name with
  | none => [.undefinedDirective directive.name]
  | some definition =>
    findingIf (!definition.locations.contains location) (.misplacedDirective directive.name) ++
    argumentViolations schema scope directive.name definition.arguments directive.arguments

/-- The directives of a list that are repeated although they may not be. -/
def repeatedDirectives (schema : TypeSystem) (directives : List Directive) : List Violation :=
  ((repeatedNames (directives.map (·.name))).filter fun name =>
    (schema.directive? name).any (!·.repeatable)).map .repeatedDirective

/-- What is wrong with the directives at a place of the given sort. -/
def directiveViolations (schema : TypeSystem) (scope : List VariableDefinition)
    (location : DirectiveLocation) (directives : List Directive) : List Violation :=
  directives.flatMap (directiveViolation schema scope location) ++
  repeatedDirectives schema directives

end MockGraph
