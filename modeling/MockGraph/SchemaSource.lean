import MockGraph.Failure
import MockGraph.Introspection.Printer
import MockGraph.Syntax.Parser
import MockGraph.Validation.Rule
import MockGraph.Validation.Schema

/-!
# `SchemaSource`: where a schema comes from

A schema is handed over built, as the text of its definitions, or as the answer to an introspection
query. `SchemaSource.schema` builds it, and `SchemaSource.load` also checks it if the rules say so. A
schema that was checked is without the built-in scalars that it does not use.
-/

set_option autoImplicit false

namespace MockGraph

open Syntax

/-! ## 1. Building -/

/-- The schema of several texts of definitions, which may refer to each other. -/
def TypeSystem.parseAll (texts : List String) : Except (List Diagnostic) TypeSystem :=
  match texts.mapM Document.parse with
  | .error error => .error [.syntactic error]
  | .ok documents => (build documents.flatten).mapError fun errors => errors.map .build

/-- The schema of a text of definitions. -/
def TypeSystem.parse (text : String) : Except (List Diagnostic) TypeSystem := parseAll [text]

/-- The schema of an answer to an introspection query. -/
def TypeSystem.ofPayload (payload : Introspection.Payload) : Except (List Diagnostic) TypeSystem :=
  match payload.sdl? with
  | none => .error [.noIntrospection]
  | some text => parse text

/-- A schema, if its rules find nothing wrong with it. -/
def TypeSystem.checked (schema : TypeSystem) : Except (List Diagnostic) TypeSystem :=
  match schema.violations with
  | [] => .ok schema.withoutUnusedScalars
  | found => .error (found.map .violation)

/-! ## 2. Sources -/

/-- Where a schema comes from. -/
inductive SchemaSource where
  | built (schema : TypeSystem)
  | definitions (text : String)
  | introspection (payload : Introspection.Payload)

def SchemaSource.schema : SchemaSource → Except (List Diagnostic) TypeSystem
  | .built schema => .ok schema
  | .definitions text => TypeSystem.parse text
  | .introspection payload => TypeSystem.ofPayload payload

/-- The schema of a source, checked if the rules say so. -/
def SchemaSource.load (source : SchemaSource) (rules : Rules) : Except Failure TypeSystem :=
  (source.schema.bind fun schema =>
    if rules.contains .schema then schema.checked else .ok schema).mapError .invalidSchema

end MockGraph
