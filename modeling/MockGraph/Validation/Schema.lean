import MockGraph.Reach
import MockGraph.TypeSystem.BuiltIn
import MockGraph.Validation.Directive

/-!
# `Validation/Schema`: the rules for schemas

`TypeSystem.violations` lists what the rules of October 2021 find wrong with a schema. Default values
in a schema are not checked against their types.

`TypeSystem.withoutUnusedScalars` drops the built-in scalars that nothing in a schema refers to;
a schema that passes its rules has only the scalars it uses. The types of introspection count as
users, so the strings and booleans always stay.
-/

set_option autoImplicit false

namespace MockGraph

open Syntax

/-! ## 1. Names and types of parts -/

/-- A name with two underscores in front belongs to the language itself. -/
def reservedName (name : Name) : List Violation :=
  findingIf (['_', '_'].isPrefixOf name.toList) (.reservedName name)

/-- The type of an argument or input field is an input type. -/
def inputTypeViolations (schema : TypeSystem) (place : Name) (type : TypeRef) : List Violation :=
  match schema.type? type.innerName with
  | none => [.undefinedType type.innerName]
  | some definition => findingIf (!definition.isInput) (.notInput place type.innerName)

/-- The type of a field is an output type. -/
def outputTypeViolations (schema : TypeSystem) (place : Name) (type : TypeRef) : List Violation :=
  match schema.type? type.innerName with
  | none => [.undefinedType type.innerName]
  | some definition => findingIf (!definition.isOutput) (.notOutput place type.innerName)

/-- What is wrong with an argument or input field. -/
def inputValueViolations (schema : TypeSystem) (location : DirectiveLocation)
    (input : InputValue) : List Violation :=
  reservedName input.name ++ inputTypeViolations schema input.name input.type ++
  directiveViolations schema [] location input.directives

/-- What is wrong with declared arguments. -/
def declaredArgumentViolations (schema : TypeSystem) (arguments : List InputValue) :
    List Violation :=
  (repeatedNames (arguments.map (·.name))).map .duplicateArgument ++
  arguments.flatMap (inputValueViolations schema .argumentDefinition)

/-- What is wrong with a field of an object or interface. -/
def fieldDefinitionViolations (schema : TypeSystem) (field : FieldDefinition) : List Violation :=
  reservedName field.name ++ outputTypeViolations schema field.name field.type ++
  declaredArgumentViolations schema field.arguments ++
  directiveViolations schema [] .fieldDefinition field.directives

/-- What is wrong with a member of an enum. -/
def enumValueViolations (schema : TypeSystem) (value : EnumValue) : List Violation :=
  reservedName value.name ++ directiveViolations schema [] .enumValue value.directives

/-- What is wrong with a member of a union. -/
def unionMemberViolations (schema : TypeSystem) (union member : Name) : List Violation :=
  match schema.kind? member with
  | none => [.undefinedType member]
  | some kind => findingIf (kind ≠ .object) (.unionMember union member)

/-! ## 2. Interfaces -/

/-- Whether a value of the type `name` is also one of the type `other`. -/
def TypeSystem.isSubtype (schema : TypeSystem) (name other : Name) : Bool :=
  name = other ||
    match schema.type? other with
    | none => false
    | some abstract =>
      abstract.members.contains name ||
        (abstract.kind = .interface &&
          (schema.type? name).any fun type => type.interfaces.contains other)

/-- Whether a field of one type may stand for a field of another. -/
def TypeSystem.covers (schema : TypeSystem) : TypeRef → TypeRef → Bool
  | .named a, .named b | .nonNullNamed a, .named b | .nonNullNamed a, .nonNullNamed b =>
    schema.isSubtype a b
  | .list a, .list b | .nonNullList a, .list b | .nonNullList a, .nonNullList b =>
    schema.covers a b
  | _, _ => false

/-- How the arguments of a field disagree with those of the interface's field. -/
def interfaceArgumentViolations (type interface : Name) (field expected : FieldDefinition) :
    List Violation :=
  (expected.arguments.flatMap fun argument =>
    findingIf (!field.arguments.any fun own => own.name = argument.name ∧ own.type = argument.type)
      (.interfaceArgument type interface field.name argument.name)) ++
  (field.arguments.flatMap fun own =>
    findingIf (own.isRequired && !expected.arguments.any (·.name = own.name))
      (.requiredArgumentAdded type field.name own.name))

/-- How a type disagrees with a field of an interface. -/
def interfaceFieldViolations (schema : TypeSystem) (type interface : TypeDefinition)
    (expected : FieldDefinition) : List Violation :=
  match type.fields.find? (·.name = expected.name) with
  | none => [.missingInterfaceField type.name interface.name expected.name]
  | some field =>
    findingIf (!schema.covers field.type expected.type)
      (.interfaceFieldType type.name interface.name field.name) ++
    interfaceArgumentViolations type.name interface.name field expected

/-- What is wrong with the claim that a type implements an interface. -/
def implementationViolations (schema : TypeSystem) (type : TypeDefinition) (name : Name) :
    List Violation :=
  match schema.type? name with
  | none => [.undefinedType name]
  | some interface =>
    if name = type.name then [.selfImplementation name]
    else if interface.kind ≠ .interface then [.notInterface type.name name]
    else
      (interface.interfaces.flatMap fun inherited =>
        findingIf (!type.interfaces.contains inherited)
          (.missingTransitiveInterface type.name name inherited)) ++
      interface.fields.flatMap (interfaceFieldViolations schema type interface)

/-! ## 3. Types -/

/-- The place of a directive on a type. -/
def TypeKind.location : TypeKind → DirectiveLocation
  | .scalar => .scalar
  | .enum => .enum
  | .object => .object
  | .interface => .interface
  | .union => .union
  | .inputObject => .inputObject

/-- What is wrong with the parts of a type. -/
def bodyViolations (schema : TypeSystem) (type : TypeDefinition) : List Violation :=
  match type.body with
  | .scalar => []
  | .object interfaces fields | .interface interfaces fields =>
    findingIf fields.isEmpty (.emptyType type.name) ++
    fields.flatMap (fieldDefinitionViolations schema) ++
    interfaces.flatMap (implementationViolations schema type)
  | .union members =>
    findingIf members.isEmpty (.emptyType type.name) ++
    members.flatMap (unionMemberViolations schema type.name)
  | .enum values =>
    findingIf values.isEmpty (.emptyType type.name) ++
    values.flatMap (enumValueViolations schema)
  | .inputObject fields =>
    findingIf fields.isEmpty (.emptyType type.name) ++
    fields.flatMap (inputValueViolations schema .inputFieldDefinition)

/-- What is wrong with a type. Only the types of the language itself have its names, and the
directives on a built-in scalar are not looked at. -/
def typeViolations (schema : TypeSystem) (type : TypeDefinition) : List Violation :=
  (if BuiltIn.isType type.name then [] else reservedName type.name) ++
  bodyViolations schema type ++
  (if BuiltIn.isScalar type.name then []
    else directiveViolations schema [] type.kind.location type.directives)

/-! ## 4. Cycles -/

/-- How many types or directives may be made of each other. -/
def maxIngredients : Nat := 32

/-- The input objects without which there is no value of an input object. -/
def requiredInputs (schema : TypeSystem) (name : Name) : List Name :=
  match schema.type? name with
  | none => []
  | some type =>
    (type.inputFields.filterMap fun field =>
      match field.type with
      | .nonNullNamed inner => if schema.kind? inner = some .inputObject then some inner else none
      | _ => none).eraseDups

/-- The input objects of which no value is finite, and those that nest too deeply. -/
def inputCycles (schema : TypeSystem) : List Violation :=
  let names := (schema.types.filter (·.kind = .inputObject)).map (·.name)
  (names.filter (strays (requiredInputs schema) id maxIngredients)).map .inputCycle

/-- What a directive definition is made of. -/
inductive Ingredient where
  | type (name : Name)
  | directive (name : Name)
  deriving DecidableEq

def Ingredient.name : Ingredient → Name
  | .type name | .directive name => name

/-- The directives on a type and on its members. -/
def typeDirectives (type : TypeDefinition) : List Directive :=
  type.directives ++ type.enumValues.flatMap (·.directives)

def directiveIngredients (directives : List Directive) : List Ingredient :=
  directives.map fun directive => .directive directive.name

/-- What the values of a type bring in: those of a built-in type only the directives on it. -/
def valueIngredients (schema : TypeSystem) (name : Name) : List Ingredient :=
  match schema.type? name with
  | none => []
  | some type =>
    if BuiltIn.isType name then directiveIngredients (typeDirectives type) else [.type name]

/-- What arguments or input fields are made of. -/
def inputIngredients (schema : TypeSystem) (inputs : List InputValue) : List Ingredient :=
  inputs.flatMap fun input =>
    directiveIngredients input.directives ++ valueIngredients schema input.type.innerName

/-- What a type or directive is made of, as far as values of it are concerned. -/
def ingredients (schema : TypeSystem) : Ingredient → List Ingredient
  | .directive name =>
    match schema.directive? name with
    | none => []
    | some definition => (inputIngredients schema definition.arguments).eraseDups
  | .type name =>
    match schema.type? name with
    | none => []
    | some type =>
      (directiveIngredients (typeDirectives type) ++
        inputIngredients schema type.inputFields).eraseDups

/-- The directives that are made of themselves, and those that are made of too much. -/
def directiveCycles (schema : TypeSystem) : List Violation :=
  ((schema.directives.map (·.name)).filter fun name =>
    strays (ingredients schema) Ingredient.name maxIngredients (.directive name)).map .directiveCycle

/-! ## 5. Directives and root types -/

/-- What is wrong with a directive definition. -/
def directiveDefinitionViolations (schema : TypeSystem) (definition : DirectiveDefinition) :
    List Violation :=
  reservedName definition.name ++ declaredArgumentViolations schema definition.arguments

/-- What is wrong with a root type. -/
def rootViolations (schema : TypeSystem) (root : OperationKind × Name) : List Violation :=
  match schema.kind? root.2 with
  | none => [.undefinedType root.2]
  | some kind => findingIf (kind ≠ .object) (.rootNotObject root.1.keyword root.2)

/-- What is wrong with the root types. -/
def schemaDefinitionViolations (schema : TypeSystem) : List Violation :=
  findingIf (schema.root? .query).isNone .missingQueryRoot ++
  schema.roots.flatMap (rootViolations schema) ++
  (repeatedNames (schema.roots.map (·.2))).map .sharedRoot ++
  directiveViolations schema [] .schema schema.applied

/-! ## 6. Whole schemas -/

namespace TypeSystem

/-- What is wrong with a schema. -/
def violations (schema : TypeSystem) : List Violation :=
  schemaDefinitionViolations schema ++
  schema.directives.flatMap (directiveDefinitionViolations schema) ++
  schema.types.flatMap (typeViolations schema) ++
  inputCycles schema ++ directiveCycles schema

/-- The names that the types of arguments and input fields refer to. -/
def inputReferences (inputs : List InputValue) : List Name := inputs.map (·.type.innerName)

def typeReferences (type : TypeDefinition) : List Name :=
  (type.fields.flatMap fun field =>
    field.type.innerName :: inputReferences field.arguments) ++
  inputReferences type.inputFields

/-- The names that the types and directives of a schema refer to. -/
def references (schema : TypeSystem) : List Name :=
  schema.types.flatMap typeReferences ++
  schema.directives.flatMap fun directive => inputReferences directive.arguments

/-- The schema without the built-in scalars that nothing in it refers to. -/
def withoutUnusedScalars (schema : TypeSystem) : TypeSystem :=
  let used := schema.references
  { schema with
    types := schema.types.filter fun type =>
      !BuiltIn.isScalar type.name || used.contains type.name }

end TypeSystem

end MockGraph
