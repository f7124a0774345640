import MockGraph.Json.Reader

/-!
# `Introspection/Payload`: the answer to an introspection query

A `Payload` is what the printer of `Introspection/Printer` needs to know of an answer. The answer is
read in its spelling, because two details of the spelling count: a known key may stand only once in an
object, and a kind or a directive location has to be written without escapes.

An absent key is a null. Unknown keys are ignored, whatever they hold. Parts that are read but never
printed, such as the arguments of fields, still have to be well formed. A type reference that ends in
nothing is accepted here; it is the printed text that is wrong.
-/

set_option autoImplicit false

namespace MockGraph.Introspection

/-! ## 1. What is known of a schema -/

/-- The kinds of an introspected type, wrappers included. -/
inductive Kind where
  | scalar
  | object
  | interface
  | union
  | enum
  | inputObject
  | list
  | nonNull
  | other (word : String)
  deriving DecidableEq

/-- The kind that a word names. -/
def Kind.ofWord : String → Kind
  | "SCALAR" => .scalar
  | "OBJECT" => .object
  | "INTERFACE" => .interface
  | "UNION" => .union
  | "ENUM" => .enum
  | "INPUT_OBJECT" => .inputObject
  | "LIST" => .list
  | "NON_NULL" => .nonNull
  | word => .other word

/-- A type as another one refers to it. -/
inductive TypeReference where
  | mk (kind : Option Kind) (name : Option String) (inner : Option TypeReference)

/-- A field of an object or interface, without its arguments. -/
structure Field where
  name : Option String
  description : Option String
  type : Option TypeReference
  deprecated : Bool
  reason : Option String

/-- A member of an enum. -/
structure EnumValue where
  name : Option String
  description : Option String
  deprecated : Bool
  reason : Option String

/-- A field of an input object. -/
structure InputField where
  name : String
  description : Option String
  type : TypeReference
  default : Option String

/-- An entry of the list of types. -/
structure TypeEntry where
  kind : Option Kind
  name : Option String
  description : Option String
  fields : List Field
  inputFields : List InputField
  interfaces : List TypeReference
  enumValues : List EnumValue
  members : List TypeReference

/-- A schema: its root types and its types. -/
structure SchemaEntry where
  query : Option String
  mutation : Option String
  subscription : Option String
  types : List (Option TypeEntry)

/-- An answer: a whole response, or only its data. -/
structure Payload where
  isResponse : Bool
  schema : Option SchemaEntry

/-! ## 2. Reading the parts of a value -/

/-- The members of an object, as they are spelled. -/
abbrev Members := List (String × Spelled)

/-- What stands under a key, a null if nothing does; refused if the key is repeated. -/
def Members.at? (members : Members) (key : String) : Option Spelled :=
  match members.filter (·.1 = key) with
  | [] => some .null
  | [(_, value)] => some value
  | _ => none

/-- Reads what stands under a key. -/
def Members.read? {α : Type} (members : Members) (key : String) (reader : Spelled → Option α) :
    Option α :=
  (members.at? key).bind reader

/-- The members of an object. -/
def members? : Spelled → Option Members
  | .object members => some members
  | _ => none

/-- A null, or something else. -/
def nullable {α : Type} (reader : Spelled → Option α) : Spelled → Option (Option α)
  | .null => some none
  | value => (reader value).map some

def listOf {α : Type} (reader : Spelled → Option α) : Spelled → Option (List α)
  | .array items => items.mapM reader
  | _ => none

/-- A null, which is an empty list, or a list. -/
def optionalList {α : Type} (reader : Spelled → Option α) (value : Spelled) : Option (List α) :=
  (nullable (listOf reader) value).map (·.getD [])

def text : Spelled → Option String
  | .string value _ => some value
  | _ => none

/-- A string without escapes. -/
def plainText : Spelled → Option String
  | .string value true => some value
  | _ => none

def flag : Spelled → Option Bool
  | .bool value => some value
  | _ => none

/-! ## 3. Type references -/

def kind (value : Spelled) : Option Kind := (plainText value).map Kind.ofWord

mutual

def typeReference : Spelled → Option TypeReference
  | .object members => do
    let kind ← Members.read? members "kind" (nullable kind)
    let name ← Members.read? members "name" (nullable text)
    match innerReferences members with
    | [] => return .mk kind name none
    | [inner] => return .mk kind name (← inner)
    | _ => none
  | _ => none

/-- What each member under the key `ofType` refers to, nothing for a null. -/
def innerReferences : Members → List (Option (Option TypeReference))
  | [] => []
  | (key, value) :: rest =>
    if key = "ofType" then
      (match value with
        | .null => some none
        | value => (typeReference value).map some) :: innerReferences rest
    else innerReferences rest

end

/-! ## 4. Members of types -/

/-- A field of an input object, or an argument. -/
def inputField (value : Spelled) : Option InputField := do
  let members ← members? value
  return {
    name := ← members.read? "name" text
    description := ← members.read? "description" (nullable text)
    type := ← members.read? "type" typeReference
    default := ← members.read? "defaultValue" (nullable text) }

/-- A field of an object or interface. -/
def field (value : Spelled) : Option Field := do
  let members ← members? value
  let _ ← members.read? "args" (optionalList (nullable inputField))
  return {
    name := ← members.read? "name" (nullable text)
    description := ← members.read? "description" (nullable text)
    type := ← members.read? "type" (nullable typeReference)
    deprecated := (← members.read? "isDeprecated" (nullable flag)).getD false
    reason := ← members.read? "deprecationReason" (nullable text) }

/-- A member of an enum. -/
def enumValue (value : Spelled) : Option EnumValue := do
  let members ← members? value
  return {
    name := ← members.read? "name" (nullable text)
    description := ← members.read? "description" (nullable text)
    deprecated := (← members.read? "isDeprecated" (nullable flag)).getD false
    reason := ← members.read? "deprecationReason" (nullable text) }

/-- An entry of the list of types. -/
def typeEntry (value : Spelled) : Option TypeEntry := do
  let members ← members? value
  return {
    kind := ← members.read? "kind" (nullable kind)
    name := ← members.read? "name" (nullable text)
    description := ← members.read? "description" (nullable text)
    fields := ← members.read? "fields" (optionalList field)
    inputFields := ← members.read? "inputFields" (optionalList inputField)
    interfaces := ← members.read? "interfaces" (optionalList typeReference)
    enumValues := ← members.read? "enumValues" (optionalList enumValue)
    members := ← members.read? "possibleTypes" (optionalList typeReference) }

/-! ## 5. Whole answers -/

/-- The name of a root type. -/
def rootName (value : Spelled) : Option (Option String) := do
  match ← nullable members? value with
  | none => return none
  | some members => members.read? "name" (nullable text)

/-- The shape of a directive, of which nothing is kept. -/
def directive (value : Spelled) : Option Unit := do
  let members ← members? value
  let _ ← members.read? "name" (nullable text)
  let _ ← members.read? "description" (nullable text)
  let _ ← members.read? "locations" (optionalList (nullable plainText))
  let _ ← members.read? "args" (optionalList (nullable inputField))
  return ()

def schemaEntry (value : Spelled) : Option SchemaEntry := do
  let members ← members? value
  let _ ← members.read? "directives" (optionalList (nullable directive))
  return {
    query := ← members.read? "queryType" rootName
    mutation := ← members.read? "mutationType" rootName
    subscription := ← members.read? "subscriptionType" rootName
    types := ← members.read? "types" (optionalList (nullable typeEntry)) }

/-- The data of an answer. -/
def data (value : Spelled) : Option (Option SchemaEntry) := do
  let members ← members? value
  members.read? "__schema" (nullable schemaEntry)

/-- A whole response. -/
def response (value : Spelled) : Option (Option SchemaEntry) := do
  let members ← members? value
  members.read? "data" data

/-- Reads an answer: a response if it is one, else the data of one. -/
def Payload.ofSpelled? (value : Spelled) : Option Payload :=
  match response value with
  | some schema => some ⟨true, schema⟩
  | none => (data value).map (⟨false, ·⟩)

/-- Reads the JSON text of an answer. -/
def Payload.parse? (text : String) : Option Payload :=
  (Spelled.parse? text).bind Payload.ofSpelled?

end MockGraph.Introspection
