import MockGraph.Files.Tree
import MockGraph.Introspection.Printer
import MockGraph.Project.Configuration
import MockGraph.SchemaSource

/-!
# `Project/Discovery`: the schema of a project

A project is found from any place inside it: the configuration file is looked for in the start
directory, then in each of its parents. Parents are read off the path alone, so directories on the way
need not exist.

The files that the configuration points to are loaded in order, and together they are one schema. A
file whose extension is `json` holds the answer to an introspection query, any other one holds
definitions. No definition is looked at before every file was loaded.

Everything here asks for files through a `FileAccess`, in whatever monad that is.
-/

set_option autoImplicit false

namespace MockGraph

variable {m : Type → Type} [Monad m]

/-- A computation that may end without a schema. -/
abbrev Loading (m : Type → Type) := ExceptT ProjectError m

/-! ## 1. The configuration file -/

/-- The names of configuration files. An earlier one is preferred. -/
def configurationNames : List String :=
  [".graphqlrc", ".graphqlrc.yml", ".graphqlrc.yaml", ".graphqlrc.json", "graphql.config.yml",
    "graphql.config.yaml", "graphql.config.json"]

/-- Where the configuration file of a start directory may be, the preferred place first. -/
def configurationPlaces (start : FilePath) : List FilePath :=
  start.ancestors.flatMap fun directory => configurationNames.map directory.join

/-- The configuration file of a start directory. -/
def findConfiguration (files : FileAccess m) (start : FilePath) : Loading m FilePath := do
  match ← ((configurationPlaces start).findM? files.isFile : m (Option FilePath)) with
  | some path => return path
  | none => throw (.notFound start)

/-- The text of a file. -/
def readFile (files : FileAccess m) (path : FilePath) : Loading m String := do
  match ← files.read path with
  | .ok text => return text
  | .error error => throw (.unreadable path error)

def readConfiguration (files : FileAccess m) (path : FilePath) : Loading m Configuration := do
  match Configuration.parse (← readFile files path) with
  | .ok configuration => return configuration
  | .error error => throw (.malformed path error.message)

/-! ## 2. Schema files -/

/-- Whether a pointer names no local file. -/
def isRemote (pointer : String) : Bool :=
  ["http://", "https://"].any fun scheme => scheme.toList.isPrefixOf pointer.toList

/-- The definitions that the text of a schema file stands for. -/
def definitionsOf (path : FilePath) (text : String) : Except ProjectError String :=
  if path.extension? = some "json" then
    match Introspection.Payload.parse? text with
    | none => .error (.notIntrospection path "unexpected value")
    | some payload =>
      match payload.sdl? with
      | none => .error (.emptyIntrospection path)
      | some definitions => .ok definitions
  else .ok text

/-- The definitions of the file that a pointer names, seen from the directory `base`. -/
def loadDefinitions (files : FileAccess m) (base : FilePath) (pointer : String) :
    Loading m String := do
  if isRemote pointer then throw (.remoteSchema pointer)
  let path := base.join pointer
  match definitionsOf path (← readFile files path) with
  | .ok definitions => return definitions
  | .error error => throw error

/-- The schema of the files that pointers name. It is built, but not checked. -/
def loadSchema (files : FileAccess m) (base : FilePath) (pointers : List String) :
    Loading m TypeSystem := do
  if pointers.isEmpty then throw (.missingSchema base)
  let texts ← pointers.mapM (loadDefinitions files base)
  match TypeSystem.parseAll texts with
  | .ok schema => return schema
  | .error causes => throw (.invalidDefinitions (Diagnostic.lines causes))

/-! ## 3. Projects and single files -/

def directoryOf (path : FilePath) : FilePath := path.parent?.getD "."

/-- The schema of the project that the directory `start` belongs to. -/
def discoverSchema (files : FileAccess m) (start : FilePath) : Loading m TypeSystem := do
  let path ← findConfiguration files start
  let configuration ← readConfiguration files path
  match configuration.schemaPointer? with
  | none => throw (.missingSchema path)
  | some pointer => loadSchema files (directoryOf path) pointer.paths

/-- The schema of a single file. -/
def schemaOfFile (files : FileAccess m) (path : FilePath) : Loading m TypeSystem :=
  loadSchema files (directoryOf path) [path.fileName?.getD ""]

end MockGraph
