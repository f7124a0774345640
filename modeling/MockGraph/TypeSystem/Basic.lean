import MockGraph.TypeSystem.FieldType

/-!
# `TypeSystem/Basic`: a schema and what can be looked up in it

A `TypeSystem` holds the types and directives of a schema, the built-in ones included, and its root
types. Lookups are by name. Three fields belong to no definition: `__typename` exists on every
composite type, and `__schema` and `__type` exist on the query root, whatever kind of type that is.

A lookup that a document needs and a schema does not answer is a `Mismatch`.
-/

set_option autoImplicit false

namespace MockGraph

open Syntax

/-! ## 1. Kinds -/

/-- The kinds of named types. -/
inductive TypeKind where
  | scalar
  | enum
  | object
  | interface
  | union
  | inputObject
  deriving DecidableEq

/-- A kind as it is named in a message. -/
def TypeKind.text : TypeKind → String
  | .scalar => "scalar"
  | .enum => "enum"
  | .object => "object"
  | .interface => "interface"
  | .union => "union"
  | .inputObject => "input object"

namespace Syntax

def TypeBody.kind : TypeBody → TypeKind
  | .scalar => .scalar
  | .object .. => .object
  | .interface .. => .interface
  | .union _ => .union
  | .enum _ => .enum
  | .inputObject _ => .inputObject

namespace TypeDefinition

def kind (type : TypeDefinition) : TypeKind := type.body.kind

/-- Whether fields can be selected on a type. -/
def isComposite (type : TypeDefinition) : Bool :=
  match type.kind with
  | .object | .interface | .union => true
  | _ => false

/-- Whether a type is one on which nothing is selected. -/
def isLeaf (type : TypeDefinition) : Bool :=
  match type.kind with
  | .scalar | .enum => true
  | _ => false

/-- Whether a type may be the type of an argument or variable. -/
def isInput (type : TypeDefinition) : Bool :=
  match type.kind with
  | .scalar | .enum | .inputObject => true
  | _ => false

/-- Whether a type may be the type of a field. -/
def isOutput (type : TypeDefinition) : Bool := type.kind != .inputObject

/-- The fields that an object or interface declares. -/
def fields (type : TypeDefinition) : List FieldDefinition :=
  match type.body with
  | .object _ fields | .interface _ fields => fields
  | _ => []

/-- The interfaces that a type declares to implement. -/
def interfaces (type : TypeDefinition) : List Name :=
  match type.body with
  | .object interfaces _ | .interface interfaces _ => interfaces
  | _ => []

/-- The fields of an input object. -/
def inputFields (type : TypeDefinition) : List InputValue :=
  match type.body with
  | .inputObject fields => fields
  | _ => []

/-- The members of a union. -/
def members (type : TypeDefinition) : List Name :=
  match type.body with
  | .union members => members
  | _ => []

/-- The members of an enum. -/
def enumValues (type : TypeDefinition) : List EnumValue :=
  match type.body with
  | .enum values => values
  | _ => []

end TypeDefinition

end Syntax

/-! ## 2. Disagreements -/

/-- A document asks for something that the schema does not have. -/
inductive Mismatch where
  | unknownType (name : Name)
  | invalidField (field type : Name)
  | invalidType (type : Name) (kind : TypeKind)
  | missingRoot (operation : String)
  deriving DecidableEq

/-- The message of a disagreement. -/
def Mismatch.message : Mismatch → String
  | .unknownType name => "type '" ++ name ++ "' is not defined in the schema"
  | .invalidField field type => "cannot query field '" ++ field ++ "' on type '" ++ type ++ "'"
  | .invalidType type kind => "type '" ++ type ++ "' of kind " ++ kind.text ++ " cannot be selected"
  | .missingRoot operation =>
    "the schema does not define a root type for " ++ operation ++ " operations"

/-! ## 3. Schemas -/

/-- A schema: its types and directives by name, and its root types. -/
structure TypeSystem where
  types : List TypeDefinition
  directives : List DirectiveDefinition
  roots : List (OperationKind × Name)
  /-- The directives applied to the schema itself. -/
  applied : List Directive

/-- The field that names the type it is selected on. -/
def typenameField : FieldDefinition :=
  ⟨none, "__typename", [], .nonNullNamed "String", []⟩

/-- The field that holds the whole schema. -/
def schemaField : FieldDefinition :=
  ⟨none, "__schema", [], .nonNullNamed "__Schema", []⟩

/-- The field that holds one type of the schema. -/
def typeField : FieldDefinition :=
  ⟨none, "__type", [⟨none, "name", .nonNullNamed "String", none, []⟩], .named "__Type", []⟩

namespace TypeSystem

def type? (schema : TypeSystem) (name : Name) : Option TypeDefinition :=
  schema.types.find? (·.name = name)

def directive? (schema : TypeSystem) (name : Name) : Option DirectiveDefinition :=
  schema.directives.find? (·.name = name)

def kind? (schema : TypeSystem) (name : Name) : Option TypeKind :=
  (schema.type? name).map (·.kind)

def root? (schema : TypeSystem) (kind : OperationKind) : Option Name :=
  (schema.roots.find? (·.1 = kind)).map (·.2)

/-- The root type for a kind of operation, or the disagreement that it is missing. -/
def root (schema : TypeSystem) (kind : OperationKind) : Except Mismatch Name :=
  match schema.root? kind with
  | some name => .ok name
  | none => .error (.missingRoot kind.keyword)

/-- The field of a name that no definition declares but a type has nevertheless. -/
def metaField? (schema : TypeSystem) (type : TypeDefinition) (field : Name) :
    Option FieldDefinition :=
  if field = "__typename" ∧ type.isComposite then some typenameField
  else if schema.root? .query = some type.name then
    match field with
    | "__schema" => some schemaField
    | "__type" => some typeField
    | _ => none
  else none

def fieldOn? (schema : TypeSystem) (type : TypeDefinition) (field : Name) :
    Option FieldDefinition :=
  (type.fields.find? (·.name = field)).or (schema.metaField? type field)

/-- The field of a name on the type of a name, or the disagreement that there is none. -/
def field (schema : TypeSystem) (parent field : Name) : Except Mismatch FieldDefinition :=
  match schema.type? parent with
  | none => .error (.unknownType parent)
  | some type =>
    match schema.fieldOn? type field with
    | none => .error (.invalidField field parent)
    | some definition => .ok definition

/-- The declared type of a field. -/
def fieldType (schema : TypeSystem) (parent field : Name) : Except Mismatch FieldType :=
  (schema.field parent field).map fun definition => FieldType.ofTypeRef definition.type

/-- The first declared member of an enum. -/
def firstEnumValue? (schema : TypeSystem) (name : Name) : Option Name :=
  (schema.type? name).bind fun type => type.enumValues.head?.map (·.name)

end TypeSystem

end MockGraph
