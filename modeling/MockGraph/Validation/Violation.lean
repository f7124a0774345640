import MockGraph.TypeSystem.Basic

/-!
# `Validation/Violation`: what the rules of the language find wrong

Each rule about schemas and documents has constructors for its findings here, and
`Violation.message` words them. The rules themselves are in `Validation/Schema` and
`Validation/Document`.
-/

set_option autoImplicit false

namespace MockGraph

open Syntax

/-- A finding about a schema or a document. -/
inductive Violation where
  -- schemas
  | undefinedType (name : Name)
  | emptyType (name : Name)
  | reservedName (name : Name)
  | missingQueryRoot
  | rootNotObject (operation : String) (type : Name)
  | sharedRoot (type : Name)
  | notOutput (place type : Name)
  | notInput (place type : Name)
  | unionMember (type member : Name)
  | notInterface (type interface : Name)
  | selfImplementation (type : Name)
  | missingTransitiveInterface (type interface missing : Name)
  | missingInterfaceField (type interface field : Name)
  | interfaceFieldType (type interface field : Name)
  | interfaceArgument (type interface field argument : Name)
  | requiredArgumentAdded (type field argument : Name)
  | inputCycle (type : Name)
  | directiveCycle (directive : Name)
  -- directives and arguments, wherever they stand
  | undefinedDirective (name : Name)
  | misplacedDirective (name : Name)
  | repeatedDirective (name : Name)
  | duplicateArgument (name : Name)
  | unknownArgument (place name : Name)
  | missingArgument (place name : Name)
  | wrongValue (type : String)
  -- documents
  | definitionInDocument (name : Name)
  | duplicateOperation (name : Name)
  | anonymousNotAlone
  | missingRoot (operation : String)
  | duplicateFragment (name : Name)
  | unusedFragment (name : Name)
  | undefinedFragment (name : Name)
  | fragmentCycle (name : Name)
  | conditionNotComposite (type : Name)
  | impossibleSpread (condition type : Name)
  | unknownField (type field : Name)
  | missingSelections (field : Name)
  | selectionsOnLeaf (field : Name)
  | conflictingFields (key : Name)
  | fieldsTooDeep
  | subscriptionFields
  | subscriptionIntrospection
  | subscriptionCondition
  | deferLabel
  | deferredRoot
  | deferInSubscription
  | duplicateVariable (name : Name)
  | variableNotInput (name : Name)
  | undefinedVariable (name : Name)
  | unusedVariable (name : Name)
  | variablePosition (name : Name) (type : String)

/-- The message of a finding. -/
def Violation.message : Violation → String
  | .undefinedType name => "cannot find type `" ++ name ++ "`"
  | .emptyType name => "`" ++ name ++ "` does not define anything"
  | .reservedName name => "`" ++ name ++ "` starts with two underscores"
  | .missingQueryRoot => "the schema has no query type"
  | .rootNotObject operation type =>
    "the " ++ operation ++ " type `" ++ type ++ "` is no object type"
  | .sharedRoot type => "`" ++ type ++ "` is the type of more than one root"
  | .notOutput place type => "`" ++ place ++ "` has the type `" ++ type ++ "`, which is no output type"
  | .notInput place type => "`" ++ place ++ "` has the type `" ++ type ++ "`, which is no input type"
  | .unionMember type member => "`" ++ member ++ "` in `" ++ type ++ "` is no object type"
  | .notInterface type interface =>
    "`" ++ type ++ "` implements `" ++ interface ++ "`, which is no interface"
  | .selfImplementation type => "`" ++ type ++ "` implements itself"
  | .missingTransitiveInterface type interface missing =>
    "`" ++ type ++ "` implements `" ++ interface ++ "` and so has to implement `" ++ missing ++ "`"
  | .missingInterfaceField type interface field =>
    "`" ++ type ++ "` lacks the field `" ++ field ++ "` of `" ++ interface ++ "`"
  | .interfaceFieldType type interface field =>
    "the type of `" ++ type ++ "." ++ field ++ "` does not fit `" ++ interface ++ "`"
  | .interfaceArgument type interface field argument =>
    "`" ++ type ++ "." ++ field ++ "` does not take the argument `" ++ argument ++ "` of `" ++
      interface ++ "`"
  | .requiredArgumentAdded type field argument =>
    "`" ++ type ++ "." ++ field ++ "` requires the argument `" ++ argument ++
      "` that its interface does not have"
  | .inputCycle type => "the input type `" ++ type ++ "` requires itself or nests too deeply"
  | .directiveCycle directive =>
    "the definition of `@" ++ directive ++ "` uses itself or nests too deeply"
  | .undefinedDirective name => "cannot find directive `@" ++ name ++ "`"
  | .misplacedDirective name => "`@" ++ name ++ "` may not stand here"
  | .repeatedDirective name => "`@" ++ name ++ "` may not be repeated"
  | .duplicateArgument name => "the argument `" ++ name ++ "` is given more than once"
  | .unknownArgument place name => "`" ++ place ++ "` has no argument `" ++ name ++ "`"
  | .missingArgument place name => "`" ++ place ++ "` requires the argument `" ++ name ++ "`"
  | .wrongValue type => "this is no value of the type `" ++ type ++ "`"
  | .definitionInDocument name => "`" ++ name ++ "` is defined in a document of operations"
  | .duplicateOperation name => "the operation `" ++ name ++ "` is defined more than once"
  | .anonymousNotAlone => "an operation without a name has to be the only one"
  | .missingRoot operation => "the schema has no " ++ operation ++ " type"
  | .duplicateFragment name => "the fragment `" ++ name ++ "` is defined more than once"
  | .unusedFragment name => "the fragment `" ++ name ++ "` is not used"
  | .undefinedFragment name => "cannot find fragment `" ++ name ++ "`"
  | .fragmentCycle name => "the fragment `" ++ name ++ "` spreads itself or nests too deeply"
  | .conditionNotComposite type => "there are no selections on `" ++ type ++ "`"
  | .impossibleSpread condition type => "no `" ++ type ++ "` is a `" ++ condition ++ "`"
  | .unknownField type field => "the type `" ++ type ++ "` has no field `" ++ field ++ "`"
  | .missingSelections field => "selections on `" ++ field ++ "` are missing"
  | .selectionsOnLeaf field => "there are no selections on `" ++ field ++ "`"
  | .conflictingFields key => "the fields under `" ++ key ++ "` cannot be merged"
  | .fieldsTooDeep => "too many fields stand inside each other"
  | .subscriptionFields => "a subscription has exactly one root field"
  | .subscriptionIntrospection => "the root field of a subscription is no introspection field"
  | .subscriptionCondition => "the root field of a subscription may not be skipped or included"
  | .deferLabel => "the label of a deferral is a string that no other one has"
  | .deferredRoot => "the root fields of mutations and subscriptions may not be deferred"
  | .deferInSubscription => "a subscription defers only under a condition"
  | .duplicateVariable name => "the variable `$" ++ name ++ "` is declared more than once"
  | .variableNotInput name => "the type of `$" ++ name ++ "` is no input type"
  | .undefinedVariable name => "the variable `$" ++ name ++ "` is not declared"
  | .unusedVariable name => "the variable `$" ++ name ++ "` is not used"
  | .variablePosition name type =>
    "the variable `$" ++ name ++ "` does not fit where `" ++ type ++ "` is expected"

end MockGraph
