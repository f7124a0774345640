import MockGraph.Diagnostic
import MockGraph.Project.Error

/-!
# `Failure`: why there is no mock

Every failure is a fault of the input and ends the generation as a whole. `Failure.headline` says in
one sentence what failed, `Failure.causes` lists what it was about, and `Failure.text` puts both
together.
-/

set_option autoImplicit false

namespace MockGraph

open Syntax

/-- Why there is no mock. -/
inductive Failure where
  /-- The document holds no operation. -/
  | missingOperation
  /-- The document holds no operation of the name that was asked for. -/
  | unknownOperation (name : String)
  | invalidSchema (causes : List Diagnostic)
  | invalidDocument (causes : List Diagnostic)
  /-- No schema was given and the project has none. -/
  | noSchema (cause : ProjectError)
  /-- The document asks for what the schema does not have. -/
  | mismatch (cause : Mismatch)

namespace Failure

def headline : Failure → String
  | .missingOperation =>
    "FakeQL: Document has no operations. Ensure your GraphQL document has a query directive"
  | .unknownOperation name => "FakeQL: Document has no operation named \"" ++ name ++ "\""
  | .invalidSchema _ => "FakeQL: Schema is invalid"
  | .invalidDocument _ => "FakeQL: Document does not validate against the schema"
  | .noSchema _ => "FakeQL: Could not load a schema from the project configuration"
  | .mismatch _ => "FakeQL: Document does not match the schema it was generated against"

/-- The error that a failure passes on. -/
def source? : Failure → Option String
  | .noSchema cause => some cause.message
  | .mismatch cause => some cause.message
  | _ => none

/-- What a failure was about, a text for each cause. -/
def causes : Failure → List String
  | .invalidSchema causes | .invalidDocument causes => causes.map Diagnostic.line
  | failure => failure.source?.toList

/-- The headline and the causes below it. -/
def text (failure : Failure) : String :=
  match failure.causes with
  | [] => failure.headline
  | causes =>
    failure.headline ++ "\nUnderlying errors:" ++
      String.join (causes.map fun cause => "\n  " ++ cause)

end Failure

end MockGraph
