import MockGraph.TypeSystem.Basic

/-!
# `TypeSystem/BuiltIn`: what every schema has

The five built-in scalars, the types of introspection and the four directives of October 2021. The
introspection types let arguments and input fields be deprecated, too.
-/

set_option autoImplicit false

namespace MockGraph.BuiltIn

open Syntax

/-! ## 1. Scalars -/

/-- The names of the built-in scalars. -/
def scalars : List Name := ["String", "Int", "Float", "Boolean", "ID"]

/-- A type without description and directives. -/
def define (name : Name) (body : TypeBody) : TypeDefinition := ⟨none, name, [], body⟩

/-! ## 2. Introspection -/

/-- A field without arguments. -/
def plain (name : Name) (type : TypeRef) : FieldDefinition := ⟨none, name, [], type, []⟩

/-- A field that can be asked to list deprecated entries as well. -/
def listing (name : Name) (type : TypeRef) : FieldDefinition :=
  ⟨none, name, [⟨none, "includeDeprecated", .named "Boolean", some (.boolean false), []⟩], type, []⟩

/-- An object type without interfaces. -/
def object (name : Name) (fields : List FieldDefinition) : TypeDefinition :=
  define name (.object [] fields)

def enum (name : Name) (members : List Name) : TypeDefinition :=
  define name (.enum (members.map fun member => ⟨none, member, []⟩))

/-- A required string. -/
def text : TypeRef := .nonNullNamed "String"

/-- A string that may be null. -/
def text? : TypeRef := .named "String"

/-- The fields that say whether something is deprecated. -/
def deprecation : List FieldDefinition :=
  [plain "isDeprecated" (.nonNullNamed "Boolean"), plain "deprecationReason" text?]

/-- The types in which a schema describes itself. -/
def introspectionTypes : List TypeDefinition :=
  [object "__Schema"
    [plain "description" text?,
      plain "types" (.nonNullList (.nonNullNamed "__Type")),
      plain "queryType" (.nonNullNamed "__Type"),
      plain "mutationType" (.named "__Type"),
      plain "subscriptionType" (.named "__Type"),
      plain "directives" (.nonNullList (.nonNullNamed "__Directive"))],
  object "__Type"
    [plain "kind" (.nonNullNamed "__TypeKind"),
      plain "name" text?,
      plain "description" text?,
      listing "fields" (.list (.nonNullNamed "__Field")),
      plain "interfaces" (.list (.nonNullNamed "__Type")),
      plain "possibleTypes" (.list (.nonNullNamed "__Type")),
      listing "enumValues" (.list (.nonNullNamed "__EnumValue")),
      listing "inputFields" (.list (.nonNullNamed "__InputValue")),
      plain "ofType" (.named "__Type"),
      plain "specifiedByURL" text?],
  enum "__TypeKind"
    ["SCALAR", "OBJECT", "INTERFACE", "UNION", "ENUM", "INPUT_OBJECT", "LIST", "NON_NULL"],
  object "__Field"
    ([plain "name" text,
      plain "description" text?,
      listing "args" (.nonNullList (.nonNullNamed "__InputValue")),
      plain "type" (.nonNullNamed "__Type")] ++ deprecation),
  object "__InputValue"
    ([plain "name" text,
      plain "description" text?,
      plain "type" (.nonNullNamed "__Type"),
      plain "defaultValue" text?] ++ deprecation),
  object "__EnumValue"
    ([plain "name" text, plain "description" text?] ++ deprecation),
  object "__Directive"
    [plain "name" text,
      plain "description" text?,
      plain "locations" (.nonNullList (.nonNullNamed "__DirectiveLocation")),
      listing "args" (.nonNullList (.nonNullNamed "__InputValue")),
      plain "isRepeatable" (.nonNullNamed "Boolean")],
  enum "__DirectiveLocation"
    ["QUERY", "MUTATION", "SUBSCRIPTION", "FIELD", "FRAGMENT_DEFINITION", "FRAGMENT_SPREAD",
      "INLINE_FRAGMENT", "VARIABLE_DEFINITION", "SCHEMA", "SCALAR", "OBJECT", "FIELD_DEFINITION",
      "ARGUMENT_DEFINITION", "INTERFACE", "UNION", "ENUM", "ENUM_VALUE", "INPUT_OBJECT",
      "INPUT_FIELD_DEFINITION"]]

/-- All built-in types. -/
def types : List TypeDefinition := introspectionTypes ++ scalars.map (define · .scalar)

/-- Whether a name is that of a built-in type. -/
def isType (name : Name) : Bool := types.any (·.name = name)

/-- Whether a name is that of a built-in scalar. -/
def isScalar (name : Name) : Bool := scalars.contains name

/-! ## 3. Directives -/

/-- The built-in directives. -/
def directives : List DirectiveDefinition :=
  let condition : InputValue := ⟨none, "if", .nonNullNamed "Boolean", none, []⟩
  let selections : List DirectiveLocation := [.field, .fragmentSpread, .inlineFragment]
  [⟨none, "skip", [condition], false, selections⟩,
    ⟨none, "include", [condition], false, selections⟩,
    ⟨none, "deprecated",
      [⟨none, "reason", .named "String", some (.string "No longer supported"), []⟩], false,
      [.fieldDefinition, .argumentDefinition, .inputFieldDefinition, .enumValue]⟩,
    ⟨none, "specifiedBy", [⟨none, "url", .nonNullNamed "String", none, []⟩], false, [.scalar]⟩]

end MockGraph.BuiltIn
