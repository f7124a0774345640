/-!
# `Project/Error`: why a project has no schema

The causes for which no schema comes from a project's files, and their messages. Where another part
of the library refused a file, the cause holds that part's message.
-/

set_option autoImplicit false

namespace MockGraph

/-- Why a file cannot be read as text. -/
inductive ReadError where
  | missing
  | isDirectory
  /-- The path goes on after a file. -/
  | notDirectory
  /-- The bytes are no text. -/
  | notText
  | other (message : String)
  deriving DecidableEq

def ReadError.message : ReadError → String
  | .missing => "No such file or directory (os error 2)"
  | .isDirectory => "Is a directory (os error 21)"
  | .notDirectory => "Not a directory (os error 20)"
  | .notText => "stream did not contain valid UTF-8"
  | .other message => message

/-- Why no schema was found or loaded. -/
inductive ProjectError where
  /-- There is no configuration file. -/
  | notFound (start : String)
  | unreadable (path : String) (error : ReadError)
  /-- The configuration file has no configuration in it. -/
  | malformed (path : String) (detail : String)
  /-- The configuration names no schema file. -/
  | missingSchema (path : String)
  /-- The configuration names a schema that is no local file. -/
  | remoteSchema (pointer : String)
  | notIntrospection (path : String) (detail : String)
  | emptyIntrospection (path : String)
  /-- The definitions in the schema files are refused. -/
  | invalidDefinitions (detail : String)
  deriving DecidableEq

def ProjectError.message : ProjectError → String
  | .notFound start => "no graphql-config file found in " ++ start ++ " or any of its parents"
  | .unreadable path error => "could not read " ++ path ++ ": " ++ error.message
  | .malformed path detail => "could not parse " ++ path ++ ": " ++ detail
  | .missingSchema path => path ++ " does not define a schema"
  | .remoteSchema pointer =>
    "schema pointer '" ++ pointer ++ "' is not supported, only local files are"
  | .notIntrospection path detail => path ++ " is not an introspection result: " ++ detail
  | .emptyIntrospection path => "introspection result " ++ path ++ " has no __schema"
  | .invalidDefinitions detail => "could not build the schema: " ++ detail

end MockGraph
