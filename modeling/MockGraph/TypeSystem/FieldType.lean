import MockGraph.Syntax.Document

/-!
# `TypeSystem/FieldType`: the declared type of a field

A `FieldType` spells a type with one constructor for each wrapper and one for each built-in scalar.
`FieldType.ofTypeRef` reads it off a type reference, `FieldType.render` writes the notation of the
language, and `FieldType.unwrap` strips every wrapper and counts the lists among them.
-/

set_option autoImplicit false

namespace MockGraph

open Syntax

inductive FieldType where
  /-- A named type that is no built-in scalar. -/
  | named (name : Name)
  | list (item : FieldType)
  | nonNull (inner : FieldType)
  | string
  | int
  | float
  | id
  | boolean
  deriving DecidableEq

namespace FieldType

/-- The type that a name stands for. -/
def ofName : Name → FieldType
  | "String" => .string
  | "Int" => .int
  | "Float" => .float
  | "ID" => .id
  | "Boolean" => .boolean
  | name => .named name

/-- The type that a reference stands for. -/
def ofTypeRef : TypeRef → FieldType
  | .named n => ofName n
  | .nonNullNamed n => .nonNull (ofName n)
  | .list t => .list (ofTypeRef t)
  | .nonNullList t => .nonNull (.list (ofTypeRef t))

/-- A type in the notation of the language. -/
def render : FieldType → String
  | .named n => n
  | .list t => "[" ++ t.render ++ "]"
  | .nonNull t => t.render ++ "!"
  | .string => "String"
  | .int => "Int"
  | .float => "Float"
  | .id => "ID"
  | .boolean => "Boolean"

/-- The type inside all wrappers, and how many of these are lists. -/
def unwrap : FieldType → FieldType × Nat
  | .nonNull t => t.unwrap
  | .list t => (t.unwrap.1, t.unwrap.2 + 1)
  | t => (t, 0)

/-- The name of the type inside all wrappers. -/
def innerName : FieldType → Name
  | .list t | .nonNull t => t.innerName
  | t => t.render

end FieldType

end MockGraph
