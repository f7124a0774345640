import MockGraph.CommandLine.Arguments
import MockGraph.Generation
import MockGraph.Json.Printer
import MockGraph.Project.Discovery

/-!
# `CommandLine/Run`: the command

The command reads the document, the schema and the resolvers in this order, makes the mock, puts the
assigned values into it and prints it. The first step that fails decides the report. What the command
asks of its surroundings is in `Surroundings`, so it runs in any monad.
-/

set_option autoImplicit false

namespace MockGraph

/-! ## 1. Surroundings and outcomes -/

/-- What a command sees of the world. -/
structure Surroundings (m : Type → Type) where
  files : FileAccess m
  /-- The text of the standard input. -/
  input : m (Except ReadError String)
  /-- The current directory. -/
  directory : m (Except ReadError FilePath)
  /-- The path of the schema when the arguments give none. -/
  schemaVariable : Option String

/-- Why a command prints no mock although it is asked for in the right way. -/
inductive CommandError where
  | unreadableInput (error : ReadError)
  | unreadable (path : FilePath) (error : ReadError)
  | noSchema (path : FilePath) (error : ProjectError)
  | notJson (path : FilePath)
  | notObject (path : FilePath)
  | noMock (failure : Failure)

/-- What a command reports. -/
def CommandError.message : CommandError → String
  | .unreadableInput _ => "could not read the operation from stdin"
  | .unreadable path _ => "could not read " ++ path
  | .noSchema path _ => "could not load schema " ++ path
  | .notJson path => path ++ " is not valid JSON"
  | .notObject path => path ++ " must contain a JSON object"
  | .noMock failure => failure.text

/-- What led to the error, if the message does not say it. -/
def CommandError.cause? : CommandError → Option String
  | .unreadableInput error | .unreadable _ error => some error.message
  | .noSchema _ error => some error.message
  | .notJson _ | .notObject _ | .noMock _ => none

/-- The whole report. -/
def CommandError.report (error : CommandError) : String :=
  "Error: " ++ error.message ++
    match error.cause? with
    | none => ""
    | some cause => "\n\nCaused by:\n    " ++ cause

/-- How a command ends. -/
inductive Outcome where
  | printed (text : String)
  | failed (error : CommandError)
  | misused (error : UsageError)

/-- The exit code. -/
def Outcome.code : Outcome → UInt8
  | .printed _ => 0
  | .failed _ => 1
  | .misused _ => 2

/-- The name and version of the command. -/
def versionText : String := "fakeql 0.1.0\n"

/-- How the command is used. -/
def helpText : String :=
  String.join (List.map (· ++ "\n")
    ["Prints a mock response for a GraphQL operation",
      "",
      "Usage: fakeql [OPTIONS] <QUERY>",
      "",
      "  <QUERY>                      The path to the operation file, or - for stdin",
      "  -s, --schema <SCHEMA>        The path to the schema [env: FAKEQL_SCHEMA]",
      "  -o, --operation <OPERATION>  Name of the operation to mock",
      "  -r, --resolvers <RESOLVERS>  A JSON object of constant values keyed by type name",
      "      --no-validate            Skip schema and document validation",
      "      --set <PATH=JSON>        Overwrite part of the mock",
      "  -h, --help                   Print help",
      "  -V, --version                Print version"])

/-! ## 2. Steps -/

variable {m : Type → Type} [Monad m]

abbrev CommandStep (m : Type → Type) := ExceptT CommandError m

/-- Whether a path stands for the standard input: a dash, whatever slashes and points follow it. -/
def isInput (path : FilePath) : Bool := path.parts.head = ['-'] && path.parts.rest = []

/-- The text of the document. -/
def readDocument (world : Surroundings m) (path : FilePath) : CommandStep m String := do
  if isInput path then
    match ← world.input with
    | .ok text => return text
    | .error error => throw (.unreadableInput error)
  else
    match ← world.files.read path with
    | .ok text => return text
    | .error error => throw (.unreadable path error)

def readSchema (world : Surroundings m) (path : FilePath) : CommandStep m SchemaSource := do
  match ← ((schemaOfFile world.files path).run : m (Except ProjectError TypeSystem)) with
  | .ok schema => return .built schema
  | .error error => throw (.noSchema path error)

/-- The resolvers in a file: constants by type name. -/
def readResolvers (world : Surroundings m) (path : FilePath) : CommandStep m Registry := do
  match ← world.files.read path with
  | .error error => throw (.unreadable path error)
  | .ok text =>
    match Json.parse? text with
    | none => throw (.notJson path)
    | some (.object constants) => return .ofConstants constants
    | some _ => throw (.notObject path)

/-- The schema of the project that the current directory belongs to. -/
def currentSchema (world : Surroundings m) : m (Except ProjectError SchemaSource) := do
  match ← world.directory with
  | .error error => return .error (.unreadable "." error)
  | .ok directory => return (← (discoverSchema world.files directory).run).map .built

/-! ## 3. The command -/

/-- The mock that the arguments ask for. -/
def makeMock (world : Surroundings m) (arguments : Arguments) : CommandStep m Json := do
  let text ← readDocument world (arguments.document.getD "")
  let source? ← arguments.schema.mapM (readSchema world)
  let registry ← arguments.resolvers.mapM (readResolvers world)
  let rules := if arguments.validate then Rules.all else []
  let options : Options := ⟨registry.getD .empty, rules, arguments.operation⟩
  let acquire : m (Except ProjectError SchemaSource) := match source? with
    | some source => pure (.ok source)
    | none => currentSchema world
  let (result, _) ←
    (generateFromText text acquire options [] : m (Except Failure Json × Calls))
  match result with
  | .ok mock => return mock.assignAll arguments.assignments
  | .error failure => throw (.noMock failure)

def runCommand (world : Surroundings m) (arguments : List String) : m Outcome := do
  match Request.parse arguments world.schemaVariable with
  | .error error => return .misused error
  | .ok .version => return .printed versionText
  | .ok .help => return .printed helpText
  | .ok (.mock arguments) =>
    match ← (makeMock world arguments).run with
    | .ok mock => return .printed (mock.pretty ++ "\n")
    | .error error => return .failed error

end MockGraph
