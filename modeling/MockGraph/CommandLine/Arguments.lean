import MockGraph.Json.Path
import MockGraph.Json.Reader

/-!
# `CommandLine/Arguments`: what the arguments ask for

The one positional argument is the path of the document. Options come before or after it, and their
values are attached (`-sPATH`, `-s=PATH`, `--schema=PATH`) or stand in the next argument, which must not
look like an option. After a lone `--` every argument is positional. Arguments are read from the left,
and the first mistake ends the reading; so does a request for the version or for help.

An assignment is the text of a path, an equals sign and JSON. The first equals sign divides it, so a
path in it has none, but its JSON may.
-/

set_option autoImplicit false

namespace MockGraph

/-! ## 1. Requests -/

inductive ValueOption where
  | schema
  | operation
  | resolvers
  | assignment
  deriving DecidableEq

/-- The long name of an option. -/
def ValueOption.name : ValueOption → String
  | .schema => "schema"
  | .operation => "operation"
  | .resolvers => "resolvers"
  | .assignment => "set"

/-- The options that have a short name, and it. -/
def ValueOption.letters : List (Char × ValueOption) :=
  [('s', .schema), ('o', .operation), ('r', .resolvers)]

/-- The option of a long name. -/
def ValueOption.ofName? (name : String) : Option ValueOption :=
  [ValueOption.schema, .operation, .resolvers, .assignment].find? (·.name = name)

/-- What is wrong with the arguments. -/
inductive UsageError where
  | unknown (argument : String)
  | surplus (argument : String)
  | missingDocument
  | missingValue (option : ValueOption)
  /-- A value is attached to an option that has none. -/
  | needlessValue (name : String)
  | repeated (name : String)
  | emptyPath (name : String)
  | noEqualsSign (text : String)
  | notJson (text : String)
  deriving DecidableEq

def UsageError.message : UsageError → String
  | .unknown argument => "unexpected argument '" ++ argument ++ "'"
  | .surplus argument => "there is a document already, so '" ++ argument ++ "' is unexpected"
  | .missingDocument => "the path of a document is required"
  | .missingValue option => "a value is required for '--" ++ option.name ++ "'"
  | .needlessValue name => "'--" ++ name ++ "' has no value"
  | .repeated name => "'--" ++ name ++ "' stands more than once"
  | .emptyPath name => "the path of the " ++ name ++ " is empty"
  | .noEqualsSign text => "expected PATH=JSON, got '" ++ text ++ "'"
  | .notJson text => "'" ++ text ++ "' is not JSON"

/-- A path and the value to put there. -/
abbrev Assignment := Path × Json

/-- What is asked for when a mock is. -/
structure Arguments where
  document : Option String
  schema : Option String
  operation : Option String
  resolvers : Option String
  validate : Bool
  /-- The assignments in their order. -/
  assignments : List Assignment

def Arguments.blank : Arguments := ⟨none, none, none, none, true, []⟩

/-- What is asked for. -/
inductive Request where
  | version
  | help
  | mock (arguments : Arguments)

/-! ## 2. Values -/

/-- The assignment that a text spells. -/
def Assignment.parse (text : String) : Except UsageError Assignment :=
  match Text.splitFirst? '=' text.toList with
  | none => .error (.noEqualsSign text)
  | some (path, json) =>
    match Json.parse? (String.ofList json) with
    | none => .error (.notJson (String.ofList json))
    | some value => .ok (Path.parse (String.ofList path), value)

/-- A value that may stand once. -/
def once (name : String) (old : Option String) (value : String) :
    Except UsageError (Option String) :=
  if old.isSome then .error (.repeated name) else .ok (some value)

/-- A path that may stand once and is not empty. -/
def onePath (name : String) (old : Option String) (path : String) :
    Except UsageError (Option String) :=
  if path = "" then .error (.emptyPath name) else once name old path

namespace Arguments

/-- Adds an option with its value. -/
def put (arguments : Arguments) (option : ValueOption) (value : String) :
    Except UsageError Arguments :=
  match option with
  | .schema =>
    return { arguments with schema := ← onePath option.name arguments.schema value }
  | .operation =>
    return { arguments with operation := ← once option.name arguments.operation value }
  | .resolvers =>
    return { arguments with resolvers := ← onePath option.name arguments.resolvers value }
  | .assignment =>
    return { arguments with assignments := arguments.assignments ++ [← Assignment.parse value] }

/-- Adds a positional argument. -/
def putDocument (arguments : Arguments) (path : String) : Except UsageError Arguments :=
  if arguments.document.isSome then .error (.surplus path)
  else return { arguments with document := ← onePath "document" none path }

/-- Switches the checks off. -/
def skipChecks (arguments : Arguments) : Except UsageError Arguments :=
  if arguments.validate then .ok { arguments with validate := false }
  else .error (.repeated "no-validate")

/-! ## 3. Options -/

/-- What an argument with options has led to. -/
inductive Progress where
  | done (arguments : Arguments)
  /-- The next argument is the value of an option. -/
  | waiting (option : ValueOption)
  | answered (request : Request)

/-- Reads an option with a long name, and the value attached to it. -/
def putLong (arguments : Arguments) (name : String) (value? : Option String) :
    Except UsageError Progress :=
  match ValueOption.ofName? name, value? with
  | some option, some value => return .done (← arguments.put option value)
  | some option, none => .ok (.waiting option)
  | none, _ =>
    if !(["version", "help", "no-validate"].contains name) then .error (.unknown ("--" ++ name))
    else if value?.isSome then .error (.needlessValue name)
    else if name = "no-validate" then return .done (← arguments.skipChecks)
    else .ok (.answered (if name = "version" then .version else .help))

/-- Reads an option with a short name, and what follows it in the same argument. -/
def putShort (arguments : Arguments) (letter : Char) (rest : List Char) :
    Except UsageError Progress :=
  match ValueOption.letters.lookup letter, rest with
  | some option, [] => .ok (.waiting option)
  | some option, '=' :: value => return .done (← arguments.put option (String.ofList value))
  | some option, value => return .done (← arguments.put option (String.ofList value))
  | none, _ =>
    if letter = 'V' then .ok (.answered .version)
    else if letter = 'h' then .ok (.answered .help)
    else .error (.unknown (String.ofList ['-', letter]))

/-- Reads an argument that stands neither after an option nor after a lone `--`. -/
def putNext (arguments : Arguments) (argument : String) : Except UsageError Progress :=
  match argument.toList with
  | '-' :: '-' :: long =>
    match Text.splitFirst? '=' long with
    | some (name, value) => arguments.putLong (String.ofList name) (some (String.ofList value))
    | none => arguments.putLong (String.ofList long) none
  | '-' :: letter :: rest => arguments.putShort letter rest
  | _ => return .done (← arguments.putDocument argument)

/-- Whether an argument cannot be the value of an option before it. -/
def looksLikeOption (argument : String) : Bool :=
  match argument.toList with
  | '-' :: _ :: _ => true
  | _ => false

/-! ## 4. All arguments -/

/-- Reads the arguments that are left. `waiting` is the option before them, if it lacks its value. -/
def readFrom (arguments : Arguments) (waiting : Option ValueOption) :
    List String → Except UsageError Request
  | [] =>
    match waiting with
    | some option => .error (.missingValue option)
    | none => .ok (.mock arguments)
  | argument :: rest =>
    match waiting with
    | some option =>
      if looksLikeOption argument then .error (.missingValue option)
      else (arguments.put option argument).bind fun arguments => readFrom arguments none rest
    | none =>
      if argument = "--" then return .mock (← rest.foldlM putDocument arguments)
      else
        match arguments.putNext argument with
        | .error error => .error error
        | .ok (.done arguments) => readFrom arguments none rest
        | .ok (.waiting option) => readFrom arguments (some option) rest
        | .ok (.answered request) => .ok request

/-- Completes what was asked for by the path that the surroundings give for the schema. -/
def complete (arguments : Arguments) (schemaVariable : Option String) :
    Except UsageError Arguments := do
  let schema ← match arguments.schema, schemaVariable with
    | none, some path => onePath ValueOption.schema.name none path
    | schema, _ => .ok schema
  if arguments.document.isNone then throw .missingDocument
  return { arguments with schema := schema }

end Arguments

/-- What the arguments of the command ask for. -/
def Request.parse (arguments : List String) (schemaVariable : Option String) :
    Except UsageError Request := do
  match ← Arguments.blank.readFrom none arguments with
  | .mock read => return .mock (← read.complete schemaVariable)
  | request => return request

end MockGraph
