import MockGraph.TypeSystem.BuiltIn

/-!
# `TypeSystem/Build`: a schema from its definitions

`TypeSystem.build` puts the definitions of a document together with what is built in. Extensions are
added to the definitions that they extend, in their order, wherever in the document they stand. An
extension of another kind than its type adds nothing; it is an error after the definition of the type
and no error before it. When there is no `schema` definition, the object types `Query`, `Mutation` and
`Subscription` are the roots.

A document that leaves open what the schema is, by defining something twice or by extending something
that is not there, is refused with every `BuildError` that it has. Whether the schema makes sense is
another question, which `Validation/Schema` answers.
-/

set_option autoImplicit false

namespace MockGraph

open Syntax

/-! ## 1. Causes of a refusal -/

/-- Why definitions do not make up a schema. -/
inductive BuildError where
  | executableDefinition
  | duplicateSchema
  | duplicateRoot (operation : String)
  | orphanSchemaExtension
  | duplicateType (name : Name)
  | builtInType (name : Name)
  | duplicateDirective (name : Name)
  | orphanExtension (name : Name)
  | extensionKind (name : Name)
  | duplicateMember (type member : Name)

def BuildError.message : BuildError → String
  | .executableDefinition => "a schema cannot hold executable definitions"
  | .duplicateSchema => "the schema is defined more than once"
  | .duplicateRoot operation => "the root type for " ++ operation ++ " is given more than once"
  | .orphanSchemaExtension => "there is no schema definition to extend"
  | .duplicateType name => "the type `" ++ name ++ "` is defined more than once"
  | .builtInType name => "the type `" ++ name ++ "` is built in"
  | .duplicateDirective name => "the directive `@" ++ name ++ "` is defined more than once"
  | .orphanExtension name => "there is no type `" ++ name ++ "` to extend"
  | .extensionKind name => "the extension of `" ++ name ++ "` is of another kind than the type"
  | .duplicateMember type member => "`" ++ member ++ "` stands twice in `" ++ type ++ "`"

/-! ## 2. Parts of a document -/

/-- The names that stand more than once in a list, each as often as it is repeated. -/
def repeatedNames : List Name → List Name
  | [] => []
  | name :: rest => if rest.contains name then name :: repeatedNames rest else repeatedNames rest

namespace Syntax.Document

def typeDefinitions (document : Document) : List TypeDefinition :=
  document.filterMap fun
    | .type t => some t
    | _ => none

def typeExtensions (document : Document) : List TypeDefinition :=
  document.filterMap fun
    | .extendType t => some t
    | _ => none

def schemaDefinitions (document : Document) : List SchemaDefinition :=
  document.filterMap fun
    | .schema s => some s
    | _ => none

def schemaExtensions (document : Document) : List SchemaDefinition :=
  document.filterMap fun
    | .extendSchema s => some s
    | _ => none

def directiveDefinitions (document : Document) : List DirectiveDefinition :=
  document.filterMap fun
    | .directive d => some d
    | _ => none

/-- Whether a document defines operations or fragments. -/
def isExecutable (document : Document) : Bool :=
  !document.operations.isEmpty || !document.fragments.isEmpty

end Syntax.Document

/-! ## 3. Extensions -/

namespace Syntax

/-- Adds an extension of the same kind; one of another kind adds nothing. -/
def TypeBody.extend : TypeBody → TypeBody → TypeBody
  | .object is fs, .object is' fs' => .object (is ++ is') (fs ++ fs')
  | .interface is fs, .interface is' fs' => .interface (is ++ is') (fs ++ fs')
  | .union ms, .union ms' => .union (ms ++ ms')
  | .enum vs, .enum vs' => .enum (vs ++ vs')
  | .inputObject fs, .inputObject fs' => .inputObject (fs ++ fs')
  | body, _ => body

namespace TypeDefinition

/-- Adds an extension. -/
def extend (type extension : TypeDefinition) : TypeDefinition :=
  { type with
    directives := type.directives ++ extension.directives
    body := type.body.extend extension.body }

/-- Whether an extension is meant for a type. -/
def isExtendedBy (type extension : TypeDefinition) : Bool :=
  extension.name = type.name && extension.kind = type.kind

/-- Adds the extensions that are meant for a type. -/
def extendAll (type : TypeDefinition) (extensions : List TypeDefinition) : TypeDefinition :=
  (extensions.filter type.isExtendedBy).foldl extend type

/-- The lists of names in a type in each of which a name may stand only once. -/
def nameLists (type : TypeDefinition) : List (List Name) :=
  match type.body with
  | .scalar => []
  | .object interfaces fields | .interface interfaces fields =>
    [interfaces, fields.map (·.name)]
  | .union members => [members]
  | .enum values => [values.map (·.name)]
  | .inputObject fields => [fields.map (·.name)]

end TypeDefinition

end Syntax

/-! ## 4. Building -/

namespace TypeSystem

/-- The types of a document with their extensions, after the built-in ones. -/
def buildTypes (document : Document) : List TypeDefinition :=
  (BuiltIn.types ++ document.typeDefinitions).map (·.extendAll document.typeExtensions)

/-- The directives of a document, after the built-in ones that it does not define itself. -/
def buildDirectives (document : Document) : List DirectiveDefinition :=
  let own := document.directiveDefinitions
  (BuiltIn.directives.filter fun d => !own.any (·.name = d.name)) ++ own

/-- The names that object types have to have to be root types without a schema definition. -/
def defaultRoots : List (OperationKind × Name) :=
  [(.query, "Query"), (.mutation, "Mutation"), (.subscription, "Subscription")]

/-- The root types that the definitions alone give. -/
def definedRoots (document : Document) : List (OperationKind × Name) :=
  match document.schemaDefinitions with
  | [] => defaultRoots.filter fun (_, name) =>
      document.typeDefinitions.any fun t => t.name = name ∧ t.kind = .object
  | definitions => definitions.flatMap (·.roots)

/-- The schema that a document describes, if it is not refused. -/
def assemble (document : Document) : TypeSystem where
  types := buildTypes document
  directives := buildDirectives document
  roots := definedRoots document ++ document.schemaExtensions.flatMap (·.roots)
  applied := (document.schemaDefinitions ++ document.schemaExtensions).flatMap (·.directives)

/-- What is wrong with the schema definitions and extensions of a document. -/
def schemaErrors (document : Document) : List BuildError :=
  let roots := (assemble document).roots.map (·.1.keyword)
  (if document.schemaDefinitions.length > 1 then [.duplicateSchema] else []) ++
  (if document.schemaDefinitions.isEmpty && (definedRoots document).isEmpty &&
      !document.schemaExtensions.isEmpty then [.orphanSchemaExtension] else []) ++
  (repeatedNames roots).map .duplicateRoot

/-- What is wrong with the names of types and directives. -/
def nameErrors (document : Document) : List BuildError :=
  let names := document.typeDefinitions.map (·.name)
  (names.filter BuiltIn.isType).map .builtInType ++
  (repeatedNames names).map .duplicateType ++
  (repeatedNames (document.directiveDefinitions.map (·.name))).map .duplicateDirective

/-- The extensions of types that are nowhere defined. -/
def orphanExtensions (document : Document) : List BuildError :=
  let names := (BuiltIn.types ++ document.typeDefinitions).map (·.name)
  ((document.typeExtensions.map (·.name)).filter fun name => !names.contains name).map
    .orphanExtension

/-- What is wrong with an extension where some types are known. -/
def extensionError? (known : List TypeDefinition) (extension : TypeDefinition) : Option BuildError :=
  match known.find? (·.name = extension.name) with
  | none => none
  | some type => if type.isExtendedBy extension then none else some (.extensionKind extension.name)

/-- The extensions of another kind than their types, where `known` are the types in front. -/
def kindErrors (known : List TypeDefinition) : Document → List BuildError
  | [] => []
  | .type type :: rest => kindErrors (type :: known) rest
  | .extendType extension :: rest => (extensionError? known extension).toList ++ kindErrors known rest
  | _ :: rest => kindErrors known rest

/-- What stands twice inside a type. -/
def memberErrors (document : Document) : List BuildError :=
  (buildTypes document).flatMap fun type =>
    type.nameLists.flatMap fun names => (repeatedNames names).map (.duplicateMember type.name)

/-- Everything that is wrong with the definitions of a document. -/
def buildErrors (document : Document) : List BuildError :=
  (if document.isExecutable then [.executableDefinition] else []) ++ schemaErrors document ++
  nameErrors document ++ orphanExtensions document ++ kindErrors BuiltIn.types document ++
  memberErrors document

/-- The schema of a document, or all that keeps it from being one. -/
def build (document : Document) : Except (List BuildError) TypeSystem :=
  match buildErrors document with
  | [] => .ok (assemble document)
  | errors => .error errors

end TypeSystem

end MockGraph
