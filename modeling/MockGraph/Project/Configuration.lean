import MockGraph.Files.Path
import MockGraph.Text.WhiteSpace
import MockGraph.Yaml.Resolution

/-!
# `Project/Configuration`: the configuration file of a project

A configuration says where the schema of a project is, and where the schemas of the projects inside it
are. It is written in YAML. A blank file is the configuration without any entry; every other file has
to hold one document.

A record is a mapping from the names of its fields, or a sequence of their values in order. Fields of
other names are ignored, and a field may be left out but not given twice.
-/

set_option autoImplicit false

namespace MockGraph

open Yaml

/-! ## 1. Configurations -/

/-- Where the files of a schema are, seen from the configuration file. -/
inductive SchemaPointer where
  | one (path : FilePath)
  | many (paths : List FilePath)
  deriving DecidableEq

def SchemaPointer.paths : SchemaPointer → List FilePath
  | .one path => [path]
  | .many paths => paths

/-- A project inside another one. -/
structure Subproject where
  schema : Option SchemaPointer
  deriving DecidableEq

structure Configuration where
  schema : Option SchemaPointer
  /-- The projects inside, in the order of their names' first places. -/
  projects : List (String × Subproject)
  deriving DecidableEq

namespace Configuration

/-- The configuration without any entry. -/
def empty : Configuration := ⟨none, []⟩

/-- The project inside that stands for the whole if the whole has no schema. -/
def defaultProject : String := "default"

/-- The schema of the project: its own, else that of its default project. -/
def schemaPointer? (configuration : Configuration) : Option SchemaPointer :=
  configuration.schema.or
    ((configuration.projects.lookup defaultProject).bind Subproject.schema)

end Configuration

/-! ## 2. Records -/

/-- Adds an entry of a mapping to the fields of a record. -/
def addField (names : List String) (fields : List (String × Node)) (entry : Node × Node) :
    Except Yaml.Error (List (String × Node)) :=
  match entry.1.text? with
  | none => .error (.shape "a field name")
  | some name =>
    if !names.contains name then .ok fields
    else if (fields.lookup name).isSome then .error (.shape "a field once")
    else .ok ((name, entry.2) :: fields)

def recordFields (names : List String) : Node → Except Yaml.Error (List (String × Node))
  | .mapping entries => entries.foldlM (addField names) []
  | .sequence items =>
    if items.length ≤ names.length then .ok (names.zip items)
    else .error (.shape "as many values as there are fields")
  | _ => .error (.shape "a mapping")

def readString (node : Node) : Except Yaml.Error String :=
  match node.string? with
  | some text => .ok text
  | none => .error (.shape "a string")

/-- A pointer: a string, or several in a sequence. -/
def SchemaPointer.read : Node → Except Yaml.Error SchemaPointer
  | .sequence items => return .many (← items.mapM readString)
  | node => return .one (← readString node)

/-- The field of a pointer, which may be left out or null. -/
def readPointerField (fields : List (String × Node)) :
    Except Yaml.Error (Option SchemaPointer) :=
  match fields.lookup "schema" with
  | none => .ok none
  | some node => if node.isAbsent then .ok none else return some (← SchemaPointer.read node)

/-! ## 3. Projects -/

/-- A project inside another one. -/
def Subproject.read (node : Node) : Except Yaml.Error Subproject := do
  return ⟨← readPointerField (← recordFields ["schema"] node)⟩

/-- Puts a project under its name: in place of the one that is there, else at the end. -/
def putProject : List (String × Subproject) → String → Subproject → List (String × Subproject)
  | [], name, project => [(name, project)]
  | (key, old) :: rest, name, project =>
    if key = name then (name, project) :: rest else (key, old) :: putProject rest name project

/-- Adds an entry of a mapping to the projects. -/
def addProject (projects : List (String × Subproject)) (entry : Node × Node) :
    Except Yaml.Error (List (String × Subproject)) :=
  match entry.1.text? with
  | none => .error (.shape "a project name")
  | some name => return putProject projects name (← Subproject.read entry.2)

/-- The projects inside another one, which are always a mapping. -/
def readProjects : Node → Except Yaml.Error (List (String × Subproject))
  | .mapping entries => entries.foldlM addProject []
  | _ => .error (.shape "a mapping of projects")

/-- The configuration that a document is. -/
def Configuration.read (node : Node) : Except Yaml.Error Configuration := do
  let fields ← recordFields ["schema", "projects"] node
  let schema ← readPointerField fields
  let projects ← match fields.lookup "projects" with
    | none => .ok []
    | some node => readProjects node
  return ⟨schema, projects⟩

def Configuration.parse (text : String) : Except Yaml.Error Configuration := do
  if Text.isBlankText text then return .empty
  Configuration.read (← Node.parse text)

end MockGraph
