import MockGraph.Introspection.Payload
import MockGraph.Text.Quoted
import MockGraph.TypeSystem.BuiltIn

/-!
# `Introspection/Printer`: an introspected schema as definitions

`Payload.sdl?` writes the definitions that an answer describes: the root types if there are any, then
each named type after a blank line. Types that are built in are left out, and so are the arguments of
fields. Descriptions and reasons are written as quoted strings on one line.

Nothing is checked. A name is written as it is, a reference that ends in nothing writes nothing, and
the text is then refused when it is read.
-/

set_option autoImplicit false

namespace MockGraph.Introspection

/-! ## 1. Parts of definitions -/

/-- A type reference. A wrapper without an inner type counts as a name. -/
def TypeReference.render : TypeReference → String
  | .mk (some .list) _ (some inner) => "[" ++ inner.render ++ "]"
  | .mk (some .nonNull) _ (some inner) => inner.render ++ "!"
  | .mk _ name _ => name.getD ""

/-- A description on a line of its own; an empty one is left out. -/
def descriptionLine (indent : String) : Option String → String
  | none | some "" => ""
  | some description => indent ++ Text.quote description ++ "\n"

/-- The mark of what is deprecated. -/
def deprecation (deprecated : Bool) (reason : Option String) : String :=
  match deprecated, reason with
  | false, _ => ""
  | true, none => " @deprecated"
  | true, some reason => " @deprecated(reason: " ++ Text.quote reason ++ ")"

/-- References with `first` before the first and `next` before each other one. -/
def references (first next : String) : List TypeReference → String
  | [] => ""
  | type :: rest => first ++ type.render ++ String.join (rest.map fun t => next ++ t.render)

/-- Lines in braces, or only a line end when there are none. -/
def block : List String → String
  | [] => "\n"
  | lines => " \x7b\n" ++ String.join lines ++ "\x7d\n"

/-- A field of an object or interface. -/
def Field.render (field : Field) : String :=
  descriptionLine "  " field.description ++ "  " ++ field.name.getD "" ++ ": " ++
    (field.type.map TypeReference.render).getD "" ++
    deprecation field.deprecated field.reason ++ "\n"

/-- A member of an enum. -/
def EnumValue.render (value : EnumValue) : String :=
  descriptionLine "  " value.description ++ "  " ++ value.name.getD "" ++
    deprecation value.deprecated value.reason ++ "\n"

/-- A field of an input object. -/
def InputField.render (field : InputField) : String :=
  let default := match field.default with
    | none => ""
    | some value => " = " ++ value
  descriptionLine "  " field.description ++ "  " ++ field.name ++ ": " ++ field.type.render ++
    default ++ "\n"

/-! ## 2. Types -/

/-- The definition of a type after its description; kinds that have no name of their own have no
definition. -/
def TypeEntry.body (type : TypeEntry) (name : String) : Kind → String
  | .scalar => "scalar " ++ name ++ "\n"
  | .object =>
    "type " ++ name ++ references " implements " " & " type.interfaces ++
      block (type.fields.map Field.render)
  | .interface =>
    "interface " ++ name ++ references " implements " " & " type.interfaces ++
      block (type.fields.map Field.render)
  | .union => "union " ++ name ++ references " = " " | " type.members ++ "\n"
  | .enum => "enum " ++ name ++ block (type.enumValues.map EnumValue.render)
  | .inputObject => "input " ++ name ++ block (type.inputFields.map InputField.render)
  | .list | .nonNull | .other _ => ""

/-- Whether an entry stands for a type that every schema has. -/
def isBuiltIn (name : String) : Bool := "__".toList.isPrefixOf name.toList || BuiltIn.isScalar name

/-- An entry with a name of its own: a blank line, its description and its definition. -/
def TypeEntry.render (type : TypeEntry) : String :=
  match type.name with
  | none => ""
  | some name =>
    if isBuiltIn name then ""
    else match type.kind with
      | none => "\n"
      | some kind => "\n" ++ descriptionLine "" type.description ++ type.body name kind

/-! ## 3. Schemas -/

/-- The root types of a schema with a keyword each. -/
def SchemaEntry.roots (schema : SchemaEntry) : List (String × String) :=
  [("query", schema.query), ("mutation", schema.mutation),
    ("subscription", schema.subscription)].filterMap fun (keyword, name?) =>
      name?.map (keyword, ·)

/-- The definition of the root types, if there are any. -/
def SchemaEntry.rootBlock (schema : SchemaEntry) : String :=
  match schema.roots with
  | [] => ""
  | roots =>
    "schema" ++ block (roots.map fun (keyword, name) => "  " ++ keyword ++ ": " ++ name ++ "\n")

/-- The definitions of a schema. -/
def SchemaEntry.render (schema : SchemaEntry) : String :=
  schema.rootBlock ++ String.join ((schema.types.filterMap id).map TypeEntry.render)

/-- The definitions that an answer describes, if it holds a schema. -/
def Payload.sdl? (payload : Payload) : Option String := payload.schema.map SchemaEntry.render

end MockGraph.Introspection
