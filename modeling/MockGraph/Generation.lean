import MockGraph.Mock.Walk
import MockGraph.SchemaSource
import MockGraph.Validation.Document

/-!
# `Generation`: from a document and a schema to a mock

`generate` makes the mock of one operation of a document. Its stages come in this order, and the
first that fails decides the failure: the operation is found, the schema is acquired, built and
checked, the document is checked, the root type is looked up, and the operation is walked. The rules
say which of the two checks take place.

Acquiring a schema may have effects, so it is a computation in a monad that is run at most once, after
the operation is found. Everything else is pure.
-/

set_option autoImplicit false

namespace MockGraph

open Syntax

/-! ## 1. Options and operations -/

/-- What a caller can choose. -/
structure Options where
  registry : Registry
  rules : Rules
  /-- The operation to mock; the first of the document if there is no name. -/
  operation : Option String

/-- The options of a caller who chooses nothing. -/
def Options.standard : Options := ⟨.empty, .all, none⟩

/-- The operation of a name, or the first one. -/
def findOperation (document : Document) (name? : Option String) : Except Failure Operation :=
  match document.operations, name? with
  | [], _ => .error .missingOperation
  | first :: _, none => .ok first
  | operations, some name =>
    match operations.find? (·.name = some name) with
    | some operation => .ok operation
    | none => .error (.unknownOperation name)

/-! ## 2. Stages -/

/-- Checks a document if the rules say so. -/
def checkDocument (rules : Rules) (schema : TypeSystem) (document : Document) :
    Except Failure Unit :=
  if rules.contains .document then
    match document.violations schema with
    | [] => .ok ()
    | found => .error (.invalidDocument (found.map .violation))
  else .ok ()

/-- The schema and the root type on which an operation is walked. -/
def prepare (document : Document) (operation : Operation) (source : SchemaSource) (rules : Rules) :
    Except Failure (TypeSystem × Name) := do
  let schema ← source.load rules
  checkDocument rules schema document
  let root ← (schema.root operation.kind).mapError .mismatch
  return (schema, root)

def WalkError.failure : WalkError → Failure
  | .mismatch cause => .mismatch cause
  | .unknownFragment name => .invalidDocument [.unknownFragment name]
  | .cyclicFragment name => .invalidDocument [.cyclicFragment name]

/-- Walks an operation from its root type. -/
def walkOperation (document : Document) (operation : Operation) (registry : Registry)
    (schema : TypeSystem) (root : Name) (calls : Calls) : Except Failure Json × Calls :=
  let context : Walk.Context := ⟨schema, registry, document.fragments⟩
  let (result, calls) := Walk.perform context root operation.selections calls
  ((result.map Json.object).mapError WalkError.failure, calls)

/-- Mocks an operation with a schema that was acquired. -/
def mockOperation (document : Document) (operation : Operation) (source : SchemaSource)
    (options : Options) (calls : Calls) : Except Failure Json × Calls :=
  match prepare document operation source options.rules with
  | .error failure => (.error failure, calls)
  | .ok (schema, root) => walkOperation document operation options.registry schema root calls

/-! ## 3. Generation -/

/-- Makes the mock of an operation of a document. -/
def generate {m : Type → Type} [Monad m] (document : Document)
    (acquire : m (Except ProjectError SchemaSource)) (options : Options) (calls : Calls) :
    m (Except Failure Json × Calls) :=
  match findOperation document options.operation with
  | .error failure => return (.error failure, calls)
  | .ok operation => do
    match ← acquire with
    | .error cause => return (.error (.noSchema cause), calls)
    | .ok source => return mockOperation document operation source options calls

/-- Makes the mock of an operation of the document that a text spells. -/
def generateFromText {m : Type → Type} [Monad m] (text : String)
    (acquire : m (Except ProjectError SchemaSource)) (options : Options) (calls : Calls) :
    m (Except Failure Json × Calls) :=
  match Document.parse text with
  | .error error => return (.error (.invalidDocument [.syntactic error]), calls)
  | .ok document => generate document acquire options calls

end MockGraph
