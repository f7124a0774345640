import Mathlib.Data.List.Forall2
import MockGraph.Introspection.Printer
import MockGraph.Proofs.Syntax.Definitions
import MockGraph.TypeSystem.Build

/-!
# `Proofs/Introspection/Description`: what an answer describes

An answer to an introspection query spells a schema in its own way: types refer to each other
through chains of wrappers, default values are texts, and a deprecation is a flag with a reason.
`SchemaEntry.Describes` says which schema that is, without the printer and without the parser. It
goes type by type and member by member, as the entries of an answer do.

A bound on nesting is a parameter. It limits the lists in a type and the levels in a default value.
-/

set_option autoImplicit false

namespace MockGraph.Introspection

open Syntax

/-! ## 1. Types and defaults -/

/-- A chain of wrappers around a named reference. No non-null wrapper holds another one. -/
inductive TypeReference.Denotes : TypeReference → TypeRef → Prop where
  | named {kind : Option Kind} {name : Name} {inner : Option TypeReference}
      (hl : kind ≠ some .list) (hn : kind ≠ some .nonNull) (h : isName name) :
      Denotes (.mk kind (some name) inner) (.named name)
  | list {name : Option String} {inner : TypeReference} {type : TypeRef} (h : Denotes inner type) :
      Denotes (.mk (some .list) name (some inner)) (.list type)
  | nonNull {name : Option String} {inner : TypeReference} {type : TypeRef}
      (h : Denotes inner type) (ht : type.isNonNull = false) :
      Denotes (.mk (some .nonNull) name (some inner)) type.nonNull

/-- References to types by nothing but their names. -/
def Names (references : List TypeReference) (names : List Name) : Prop :=
  List.Forall₂ (fun reference name => reference.Denotes (.named name)) references names

inductive DefaultText (limit : Nat) : Option String → Option Value → Prop where
  | none : DefaultText limit none none
  | some {text : String} {raw : List Token} {value : Value} (hs : Token.scan text = .ok raw)
      (hl : Literal limit (significant raw) value) : DefaultText limit (some text) (some value)

/-- A deprecation as a directive. -/
def deprecationMark : Bool → Option String → List Directive
  | false, _ => []
  | true, none => [⟨"deprecated", []⟩]
  | true, some reason => [⟨"deprecated", [⟨"reason", .string reason⟩]⟩]

/-- A description that says something. -/
def spoken (description : Option String) : Option String := description.filter (· ≠ "")

/-! ## 2. Members of types -/

structure Field.Describes (limit : Nat) (field : Field) (defined : FieldDefinition) : Prop where
  name : field.name = some defined.name
  isName : isName defined.name
  type : ∃ reference, field.type = some reference ∧ reference.Denotes defined.type
  lists : defined.type.lists ≤ limit
  description : defined.description = spoken field.description
  arguments : defined.arguments = []
  directives : defined.directives = deprecationMark field.deprecated field.reason

structure EnumValue.Describes (value : EnumValue) (defined : Syntax.EnumValue) : Prop where
  name : value.name = some defined.name
  isName : isName defined.name
  ordinary : defined.name ∉ ["true", "false", "null"]
  description : defined.description = spoken value.description
  directives : defined.directives = deprecationMark value.deprecated value.reason

structure InputField.Describes (limit : Nat) (field : InputField) (defined : InputValue) :
    Prop where
  name : field.name = defined.name
  isName : isName defined.name
  type : field.type.Denotes defined.type
  lists : defined.type.lists ≤ limit
  default : DefaultText limit field.default defined.default
  description : defined.description = spoken field.description
  directives : defined.directives = []

/-! ## 3. Types -/

/-- What a type consists of, by its kind. -/
inductive TypeEntry.DescribesBody (limit : Nat) (entry : TypeEntry) : TypeBody → Prop where
  | scalar (hk : entry.kind = some .scalar) : DescribesBody limit entry .scalar
  | object {interfaces : List Name} {fields : List FieldDefinition}
      (hk : entry.kind = some .object) (hi : Names entry.interfaces interfaces)
      (hf : List.Forall₂ (Field.Describes limit) entry.fields fields) :
      DescribesBody limit entry (.object interfaces fields)
  | interface {interfaces : List Name} {fields : List FieldDefinition}
      (hk : entry.kind = some .interface) (hi : Names entry.interfaces interfaces)
      (hf : List.Forall₂ (Field.Describes limit) entry.fields fields) :
      DescribesBody limit entry (.interface interfaces fields)
  | union {members : List Name} (hk : entry.kind = some .union)
      (hm : Names entry.members members) : DescribesBody limit entry (.union members)
  | enum {values : List Syntax.EnumValue} (hk : entry.kind = some .enum)
      (hv : List.Forall₂ EnumValue.Describes entry.enumValues values) :
      DescribesBody limit entry (.enum values)
  | inputObject {fields : List InputValue} (hk : entry.kind = some .inputObject)
      (hf : List.Forall₂ (InputField.Describes limit) entry.inputFields fields) :
      DescribesBody limit entry (.inputObject fields)

/-- An entry and its type. Interfaces, members and fields stand in their type only once each. -/
structure TypeEntry.Describes (limit : Nat) (entry : TypeEntry) (type : TypeDefinition) : Prop where
  name : entry.name = some type.name
  isName : isName type.name
  description : type.description = spoken entry.description
  directives : type.directives = []
  body : entry.DescribesBody limit type.body
  unique : ∀ names ∈ type.nameLists, names.Nodup

/-! ## 4. Schemas -/

namespace SchemaEntry

/-- The root types that have a name. -/
def rootTypes (schema : SchemaEntry) : List (OperationKind × Name) :=
  [(OperationKind.query, schema.query), (.mutation, schema.mutation),
    (.subscription, schema.subscription)].filterMap fun (kind, name?) => name?.map (kind, ·)

/-- The entries of types that are not built in. -/
def ownTypes (schema : SchemaEntry) : List TypeEntry :=
  (schema.types.filterMap id).filter fun entry => !entry.name.any isBuiltIn

/-- A schema with at least one root type and with these types beside the built-in ones. -/
structure Describes (limit : Nat) (schema : SchemaEntry) (types : List TypeDefinition) : Prop where
  rooted : schema.rootTypes ≠ []
  isName : ∀ root ∈ schema.rootTypes, isName root.2
  entries : List.Forall₂ (TypeEntry.Describes limit) schema.ownTypes types
  unique : (types.map (·.name)).Nodup

end SchemaEntry

end MockGraph.Introspection
