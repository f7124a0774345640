import MockGraph.Failure
import MockGraph.Project.Configuration
import MockGraph.TypeSystem.FieldType
import MockGraph.Validation.Rule

/-!
# `Interchange`: values of the library as JSON

A constructor without arguments is the string of its name, one with arguments an object with the name
as its only key. A record is an object of its fields or a list of them in their order. Each `toJson`
has an `ofJson?` beside it that reads what it writes, and also reads a constructor without arguments
when it is spelled as an object that holds a null.
-/

set_option autoImplicit false

namespace MockGraph

/-! ## 1. Shapes -/

namespace Json

/-- The name of a constructor without arguments. -/
def constantName? : Json → Option String
  | .string name => some name
  | .object [(name, .null)] => some name
  | _ => none

def text? : Json → Option String
  | .string value => some value
  | _ => none

/-- A number that fits 64 bits without a sign. -/
def word? : Json → Option UInt64
  | .number (.integer n _) => if 0 ≤ n then some (UInt64.ofNat n.toNat) else none
  | _ => none

/-- A list of which every item is read the same way. -/
def listOf? {α : Type} (reader : Json → Option α) : Json → Option (List α)
  | .array items => items.mapM reader
  | _ => none

/-- The fields of a record that is written as an object or as a list. -/
def record? (names : List String) : Json → Option Object
  | .object members => some members
  | .array items => if items.length ≤ names.length then some (names.zip items) else none
  | _ => none

/-- Reads a field of a record; an absent one has the value `absent`. -/
def Object.read? {α : Type} (record : Object) (key : String) (reader : Json → Option α)
    (absent : Option α) : Option α :=
  match record.get? key with
  | none => absent
  | some value => reader value

/-- Whether an object has no other keys than the given ones. -/
def Object.isWithin (names : List String) (record : Object) : Bool :=
  record.keys.all names.contains

/-- A number that fits 64 bits without a sign, as JSON. -/
def ofWord (n : UInt64) : Json :=
  .number (.integer n.toNat ⟨by omega, by have := n.toNat_lt; omega⟩)

end Json

/-! ## 2. Types of fields -/

namespace FieldType

def toJson : FieldType → Json
  | .named name => .object [("Named", .string name)]
  | .list item => .object [("List", item.toJson)]
  | .nonNull inner => .object [("NonNull", inner.toJson)]
  | .string => .string "String"
  | .int => .string "Int"
  | .float => .string "Float"
  | .id => .string "Id"
  | .boolean => .string "Boolean"

/-- The built-in scalar of a constructor. -/
def ofConstantName? : String → Option FieldType
  | "String" => some .string
  | "Int" => some .int
  | "Float" => some .float
  | "Id" => some .id
  | "Boolean" => some .boolean
  | _ => none

/-- The field type of a JSON value. -/
def ofJson? : Json → Option FieldType
  | .object [("Named", .string name)] => some (.named name)
  | .object [("List", item)] => (ofJson? item).map .list
  | .object [("NonNull", inner)] => (ofJson? inner).map .nonNull
  | value => value.constantName?.bind ofConstantName?

end FieldType

/-! ## 3. Paths -/

def Step.toJson : Step → Json
  | .index i => .ofWord i
  | .key name => .string name

/-- The step of a JSON value. -/
def Step.ofJson? : Json → Option Step
  | .string name => some (.key name)
  | value => value.word?.map .index

def Path.toJson (path : Path) : Json := .array (path.map Step.toJson)

/-- The path of a JSON value. -/
def Path.ofJson? : Json → Option Path := Json.listOf? Step.ofJson?

/-! ## 4. Rules -/

def Rule.toJson : Rule → Json
  | .schema => .string "schema"
  | .document => .string "document"

def Rule.ofJson? (value : Json) : Option Rule :=
  match value.constantName? with
  | some "schema" => some .schema
  | some "document" => some .document
  | _ => none

def Rules.toJson (rules : Rules) : Json := .array (rules.map Rule.toJson)

/-- The rules of a JSON value. -/
def Rules.ofJson? : Json → Option Rules := Json.listOf? Rule.ofJson?

/-! ## 5. Disagreements -/

def TypeKind.constantName : TypeKind → String
  | .scalar => "Scalar"
  | .enum => "Enum"
  | .object => "Object"
  | .interface => "Interface"
  | .union => "Union"
  | .inputObject => "InputObject"

def TypeKind.ofJson? (value : Json) : Option TypeKind :=
  value.constantName?.bind fun name =>
    [TypeKind.scalar, .enum, .object, .interface, .union, .inputObject].find? fun kind =>
      kind.constantName = name

/-- A disagreement as JSON. -/
def Mismatch.toJson : Mismatch → Json
  | .unknownType name => .object [("UnknownType", .string name)]
  | .invalidField field type => .object [("InvalidField", .array [.string field, .string type])]
  | .invalidType type kind =>
    .object [("InvalidType", .array [.string type, .string kind.constantName])]
  | .missingRoot operation => .object [("MissingRootOperation", .string operation)]

/-- The disagreement of a JSON value. -/
def Mismatch.ofJson? : Json → Option Mismatch
  | .object [("UnknownType", .string name)] => some (.unknownType name)
  | .object [("InvalidField", .array [.string field, .string type])] =>
    some (.invalidField field type)
  | .object [("InvalidType", .array [.string type, kind])] =>
    (TypeKind.ofJson? kind).map (.invalidType type)
  | .object [("MissingRootOperation", .string operation)] => some (.missingRoot operation)
  | _ => none

/-! ## 6. Reports -/

/-- A place as JSON. -/
def Location.toJson (location : Location) : Json :=
  .object [("line", .ofWord location.line), ("column", .ofWord location.column)]

/-- The place of a JSON value. -/
def Location.ofJson? (value : Json) : Option Location := do
  let record ← value.record? ["line", "column"]
  if record.isWithin ["line", "column"] then
    let line ← record.read? "line" Json.word? none
    let column ← record.read? "column" Json.word? none
    return ⟨line, column⟩
  else none

/-- One step of the path in a report: its keys are names of the language. -/
def Report.step? (value : Json) : Option Step :=
  match Step.ofJson? value with
  | some (.key name) => if Syntax.isName name then some (.key name) else none
  | step => step

/-- The object of a JSON value. -/
def Json.members? : Json → Option Json.Object
  | .object members => some members
  | _ => none

def Report.fieldNames : List String := ["message", "locations", "path", "extensions"]

/-- A report as JSON; what is empty is left out. -/
def Report.toJson (report : Report) : Json :=
  let locations := Json.array (report.locations.map Location.toJson)
  .object ([("message", .string report.message)] ++
    (if report.locations.isEmpty then [] else [("locations", locations)]) ++
    (if report.path.isEmpty then [] else [("path", report.path.toJson)]) ++
    (if report.extensions.isEmpty then [] else [("extensions", .object report.extensions)]))

def Report.ofJson? (value : Json) : Option Report := do
  let record ← value.record? fieldNames
  if record.isWithin fieldNames then
    let message ← record.read? "message" Json.text? none
    let locations ← record.read? "locations" (Json.listOf? Location.ofJson?) (some [])
    let path ← record.read? "path" (Json.listOf? step?) (some [])
    let extensions ← record.read? "extensions" Json.members? (some [])
    return ⟨message, locations, path, extensions⟩
  else none

def Report.listToJson (reports : List Report) : Json :=
  .object [("errors", .array (reports.map toJson))]

def Report.listOfJson? (value : Json) : Option (List Report) := do
  let record ← value.record? ["errors"]
  record.read? "errors" (Json.listOf? ofJson?) none

/-! ## 6. Configurations -/

def SchemaPointer.field : Option SchemaPointer → String × Json
  | none => ("schema", .null)
  | some (.one path) => ("schema", .string path)
  | some (.many paths) => ("schema", .array (paths.map .string))

/-- A project inside another one as JSON. -/
def Subproject.toJson (project : Subproject) : Json := .object [SchemaPointer.field project.schema]

def Configuration.toJson (configuration : Configuration) : Json :=
  .object [SchemaPointer.field configuration.schema,
    ("projects", .object (configuration.projects.map fun (name, project) => (name, project.toJson)))]

end MockGraph
