import MockGraph.Json.Path
import MockGraph.Syntax.Token
import MockGraph.TypeSystem.Build
import MockGraph.Validation.Violation

/-!
# `Diagnostic`: one cause of a refusal

A schema or a document is refused for a list of causes. Most causes come from one stage of reading
and have a type of their own; `Diagnostic` joins them. A `Report` is a cause that was handed over in
the format in which responses carry errors.

`Diagnostic.line` is the text of a cause, after its first place in the source if that is known.
-/

set_option autoImplicit false

namespace MockGraph

open Syntax

/-! ## 1. Reports -/

/-- A place in a source text. -/
structure Location where
  line : UInt64
  column : UInt64

/-- An error as a response carries it. -/
structure Report where
  message : String
  locations : List Location
  path : Path
  extensions : Json.Object

/-! ## 2. Causes -/

/-- Why a schema or document is refused. -/
inductive Diagnostic where
  | syntactic (error : SyntaxError)
  | build (error : BuildError)
  | violation (violation : Violation)
  /-- A spread of a fragment that the document does not have. -/
  | unknownFragment (name : Name)
  /-- A spread of a fragment within itself. -/
  | cyclicFragment (name : Name)
  /-- An answer to an introspection query that holds no schema. -/
  | noIntrospection
  | report (report : Report)

/-- The message of a cause. -/
def Diagnostic.message : Diagnostic → String
  | .syntactic error => error.message
  | .build error => error.message
  | .violation finding => finding.message
  | .unknownFragment name => "Unknown fragment \"" ++ name ++ "\"."
  | .cyclicFragment name => "Cannot spread fragment \"" ++ name ++ "\" within itself."
  | .noIntrospection => "introspection result has no __schema"
  | .report carried => carried.message

/-- The places that a cause names. -/
def Diagnostic.locations : Diagnostic → List Location
  | .report carried => carried.locations
  | _ => []

/-- The text of a cause: its first place, if it names one, and its message. -/
def Diagnostic.line (diagnostic : Diagnostic) : String :=
  match diagnostic.locations with
  | [] => diagnostic.message
  | first :: _ =>
    "[" ++ toString first.line.toNat ++ ":" ++ toString first.column.toNat ++ "] " ++
      diagnostic.message

/-- The texts of all causes, one on a line. -/
def Diagnostic.lines (diagnostics : List Diagnostic) : String :=
  "\n".intercalate (diagnostics.map Diagnostic.line)

end MockGraph
