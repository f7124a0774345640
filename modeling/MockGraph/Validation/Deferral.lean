import MockGraph.Validation.Selection

/-!
# `Validation/Deferral`: the rules for deferred parts of an answer

A fragment that carries the directive `@defer` may be answered later than the rest. Where a schema
defines that directive, three more rules hold for it:

* a label is no variable, and no two directives of a document have the same label;
* the root fields of mutations and subscriptions are not deferred; and
* what a subscription defers it has to be able not to: the argument `if` is a variable or `false`.
-/

set_option autoImplicit false

namespace MockGraph

open Syntax

/-! ## 1. What a document defers -/

/-- A fragment that is deferred: the type around it and the directive. -/
structure Deferral where
  outer : Name
  directive : Directive

/-- The deferrals among the directives of a fragment. -/
def deferralsOf (outer : Name) (directives : List Directive) : List Deferral :=
  (directives.filter (·.name = "defer")).map (⟨outer, ·⟩)

mutual

def Syntax.Selection.deferrals (schema : TypeSystem) (outer : Name) : Selection → List Deferral
  | .field _ name _ _ nested =>
    match schema.field outer name with
    | .error _ => []
    | .ok definition => deferralsIn schema definition.type.innerName nested
  | .spread _ directives => deferralsOf outer directives
  | .inline condition directives nested =>
    deferralsOf outer directives ++ deferralsIn schema (condition.getD outer) nested

def Syntax.Selection.deferralsIn (schema : TypeSystem) (outer : Name) :
    List Selection → List Deferral
  | [] => []
  | selection :: rest => selection.deferrals schema outer ++ deferralsIn schema outer rest

end

def fragmentDeferrals (schema : TypeSystem) (fragment : Fragment) : List Deferral :=
  Selection.deferralsIn schema fragment.typeCondition fragment.selections

/-! ## 2. The rules -/

def Syntax.Directive.argument? (directive : Directive) (name : Name) : Option Value :=
  (directive.arguments.find? (·.name = name)).map (·.value)

def Deferral.label? (deferral : Deferral) : Option String :=
  match deferral.directive.argument? "label" with
  | some (.string label) => some label
  | _ => none

def Deferral.hasVariableLabel (deferral : Deferral) : Bool :=
  match deferral.directive.argument? "label" with
  | some (.var _) => true
  | _ => false

/-- Whether a deferral can be switched off. -/
def Deferral.isOptional (deferral : Deferral) : Bool :=
  match deferral.directive.argument? "if" with
  | some (.var _) | some (.boolean false) => true
  | _ => false

/-- What is wrong with the labels of deferrals. -/
def labelViolations (deferrals : List Deferral) : List Violation :=
  ((deferrals.filter (·.hasVariableLabel)).map fun _ => .deferLabel) ++
  (repeatedNames (deferrals.filterMap (·.label?))).map fun _ => .deferLabel

/-- The root fields that may not be deferred but are. -/
def deferredRoots (schema : TypeSystem) (deferrals : List Deferral) : List Violation :=
  let roots := [schema.root? .mutation, schema.root? .subscription]
  (deferrals.filter fun deferral => roots.contains (some deferral.outer)).map fun _ => .deferredRoot

/-- The deferrals of a subscription that cannot be switched off. -/
def subscriptionDeferrals (deferrals : List Deferral) : List Violation :=
  (deferrals.filter (!·.isOptional)).map fun _ => .deferInSubscription

end MockGraph
