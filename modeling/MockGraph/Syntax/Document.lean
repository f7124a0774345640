/-!
# `Syntax/Document`: GraphQL documents

What a GraphQL text says, without its layout: operations and fragments with their selections, and the
definitions and extensions of a type system. An extension has the shape of the definition that it
extends.

A type reference has its non-null marks fused into four constructors, so that no reference holds two
marks in a row. `TypeRef.render` writes it in the notation of the language.
-/

set_option autoImplicit false

namespace MockGraph.Syntax

/-- Names of types, fields, arguments, variables, fragments and directives. -/
abbrev Name := String

/-! ## 1. Values and types -/

/-- A value as it is written. Numerals are kept as text. -/
inductive Value where
  | var (name : Name)
  | int (numeral : String)
  | float (numeral : String)
  | string (value : String)
  | boolean (value : Bool)
  | null
  | enum (name : Name)
  | list (items : List Value)
  | object (fields : List (Name × Value))

/-- Whether a value is the null literal. -/
def Value.isNull : Value → Bool
  | .null => true
  | _ => false

/-- A reference to a type. -/
inductive TypeRef where
  | named (name : Name)
  | nonNullNamed (name : Name)
  | list (item : TypeRef)
  | nonNullList (item : TypeRef)
  deriving DecidableEq

namespace TypeRef

/-- The named type inside all lists. -/
def innerName : TypeRef → Name
  | .named n | .nonNullNamed n => n
  | .list t | .nonNullList t => t.innerName

/-- Whether a type excludes the null. -/
def isNonNull : TypeRef → Bool
  | .nonNullNamed _ | .nonNullList _ => true
  | _ => false

/-- The type that also admits the null. -/
def nullable : TypeRef → TypeRef
  | .nonNullNamed n => .named n
  | .nonNullList t => .list t
  | t => t

/-- The type that excludes the null. -/
def nonNull : TypeRef → TypeRef
  | .named n => .nonNullNamed n
  | .list t => .nonNullList t
  | t => t

/-- The type of the items of a list type. -/
def item? : TypeRef → Option TypeRef
  | .list t | .nonNullList t => some t
  | _ => none

/-- A type in the notation of the language. -/
def render : TypeRef → String
  | .named n => n
  | .nonNullNamed n => n ++ "!"
  | .list t => "[" ++ t.render ++ "]"
  | .nonNullList t => "[" ++ t.render ++ "]!"

end TypeRef

/-! ## 2. Directives and selections -/

/-- A named argument. -/
structure Argument where
  name : Name
  value : Value

/-- A directive as it is applied. -/
structure Directive where
  name : Name
  arguments : List Argument

/-- One entry of a selection set. A field without a selection set has no selections. -/
inductive Selection where
  | field (alias? : Option Name) (name : Name) (arguments : List Argument)
      (directives : List Directive) (selections : List Selection)
  | spread (fragment : Name) (directives : List Directive)
  | inline (typeCondition : Option Name) (directives : List Directive)
      (selections : List Selection)

/-! ## 3. Executable definitions -/

inductive OperationKind where
  | query
  | mutation
  | subscription
  deriving DecidableEq

def OperationKind.keyword : OperationKind → String
  | .query => "query"
  | .mutation => "mutation"
  | .subscription => "subscription"

/-- The kind of operation that a keyword names. -/
def OperationKind.ofKeyword? : String → Option OperationKind
  | "query" => some .query
  | "mutation" => some .mutation
  | "subscription" => some .subscription
  | _ => none

/-- The declaration of a variable. -/
structure VariableDefinition where
  name : Name
  type : TypeRef
  default : Option Value
  directives : List Directive

structure Operation where
  kind : OperationKind
  name : Option Name
  variableDefinitions : List VariableDefinition
  directives : List Directive
  selections : List Selection

structure Fragment where
  name : Name
  typeCondition : Name
  directives : List Directive
  selections : List Selection

/-! ## 4. Type system definitions -/

/-- An argument of a field or directive, or a field of an input object. -/
structure InputValue where
  description : Option String
  name : Name
  type : TypeRef
  default : Option Value
  directives : List Directive

def InputValue.isRequired (input : InputValue) : Bool :=
  input.type.isNonNull && input.default.isNone

/-- A field of an object or interface. -/
structure FieldDefinition where
  description : Option String
  name : Name
  arguments : List InputValue
  type : TypeRef
  directives : List Directive

/-- A member of an enum. -/
structure EnumValue where
  description : Option String
  name : Name
  directives : List Directive

/-- What a type consists of. -/
inductive TypeBody where
  | scalar
  | object (interfaces : List Name) (fields : List FieldDefinition)
  | interface (interfaces : List Name) (fields : List FieldDefinition)
  | union (members : List Name)
  | enum (values : List EnumValue)
  | inputObject (fields : List InputValue)

/-- A definition or an extension of a type. -/
structure TypeDefinition where
  description : Option String
  name : Name
  directives : List Directive
  body : TypeBody

/-- A definition or an extension of the schema: its root types by kind of operation. -/
structure SchemaDefinition where
  directives : List Directive
  roots : List (OperationKind × Name)

/-- The places where a directive may stand. -/
inductive DirectiveLocation where
  | query
  | mutation
  | subscription
  | field
  | fragmentDefinition
  | fragmentSpread
  | inlineFragment
  | variableDefinition
  | schema
  | scalar
  | object
  | fieldDefinition
  | argumentDefinition
  | interface
  | union
  | enum
  | enumValue
  | inputObject
  | inputFieldDefinition
  deriving DecidableEq

/-- The place that a word of a directive definition names. -/
def DirectiveLocation.ofName? : String → Option DirectiveLocation
  | "QUERY" => some .query
  | "MUTATION" => some .mutation
  | "SUBSCRIPTION" => some .subscription
  | "FIELD" => some .field
  | "FRAGMENT_DEFINITION" => some .fragmentDefinition
  | "FRAGMENT_SPREAD" => some .fragmentSpread
  | "INLINE_FRAGMENT" => some .inlineFragment
  | "VARIABLE_DEFINITION" => some .variableDefinition
  | "SCHEMA" => some .schema
  | "SCALAR" => some .scalar
  | "OBJECT" => some .object
  | "FIELD_DEFINITION" => some .fieldDefinition
  | "ARGUMENT_DEFINITION" => some .argumentDefinition
  | "INTERFACE" => some .interface
  | "UNION" => some .union
  | "ENUM" => some .enum
  | "ENUM_VALUE" => some .enumValue
  | "INPUT_OBJECT" => some .inputObject
  | "INPUT_FIELD_DEFINITION" => some .inputFieldDefinition
  | _ => none

structure DirectiveDefinition where
  description : Option String
  name : Name
  arguments : List InputValue
  repeatable : Bool
  locations : List DirectiveLocation

/-! ## 5. Documents -/

/-- A definition of a document. -/
inductive Definition where
  | operation (operation : Operation)
  | fragment (fragment : Fragment)
  | schema (schema : SchemaDefinition)
  | directive (directive : DirectiveDefinition)
  | type (type : TypeDefinition)
  | extendSchema (extension : SchemaDefinition)
  | extendType (extension : TypeDefinition)

/-- Definitions in their written order. -/
abbrev Document := List Definition

/-- The operations of a document, in order. -/
def Document.operations (document : Document) : List Operation :=
  document.filterMap fun
    | .operation o => some o
    | _ => none

/-- The fragments of a document, in order. -/
def Document.fragments (document : Document) : List Fragment :=
  document.filterMap fun
    | .fragment f => some f
    | _ => none

end MockGraph.Syntax
