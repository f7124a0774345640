import MockGraph.Mock.Registry
import MockGraph.TypeSystem.Basic

/-!
# `Mock/Walk`: the mock of a selection set

A walk goes through selections together with a cursor, the name of the type they are made on. Every
selection contributes members, and the contributions of a selection set are merged in their order. A
field contributes the mock of its type, a leaf or an object, inside as many lists as the type has. A
fragment is walked at its first spread, on the type of its condition, and every later spread
contributes a copy of the same object. A resolver for the type of a field has the last word on the
field's value.

The state of a walk is the progress of its fragments and the log of generator calls, both of which
survive a failure. A fragment that is spread within itself is met again while it is still `started`,
so the depth of spreads in spreads is bounded by the number of fragments.
-/

set_option autoImplicit false

namespace MockGraph

open Syntax

/-! ## 1. What a walk reads, changes and fails with -/

/-- What a walk reads. Of several fragments with one name the first counts. -/
structure Walk.Context where
  schema : TypeSystem
  registry : Registry
  fragments : List Fragment

/-- How far a fragment has come. -/
inductive Walk.Progress where
  | started
  | finished (mock : Json.Object)

/-- What a walk changes. -/
structure Walk.State where
  progress : List (Name × Walk.Progress)
  calls : Calls

/-- Why a walk fails. -/
inductive WalkError where
  /-- The schema lacks what the document asks for. -/
  | mismatch (mismatch : Mismatch)
  /-- A spread of a fragment that the document does not have. -/
  | unknownFragment (name : Name)
  /-- A spread of a fragment within itself. -/
  | cyclicFragment (name : Name)
  deriving DecidableEq

/-- A computation of a walk. -/
abbrev Walk (α : Type) := ExceptT WalkError (StateM Walk.State) α

namespace Walk

def Context.fragment? (context : Context) (name : Name) : Option Fragment :=
  context.fragments.find? (·.name = name)

/-- How far the fragment of a name has come; nothing if it was not spread yet. -/
def State.progress? (state : State) (name : Name) : Option Progress :=
  (state.progress.find? (·.1 = name)).map (·.2)

/-- Notes how far a fragment has come. -/
def note (name : Name) (progress : Progress) : Walk Unit :=
  modify fun state => { state with progress := (name, progress) :: state.progress }

/-- Goes on with the result of a look-up in the schema. -/
def require {α : Type} : Except Mismatch α → Walk α
  | .ok value => pure value
  | .error mismatch => throw (.mismatch mismatch)

/-- Calls the resolver of a type, if it has one. -/
def resolve (context : Context) (type : Name) : Walk (Option Json) := fun state =>
  let (value?, calls) := (context.registry.call type).run state.calls
  (.ok value?, { state with calls })

/-! ## 2. Leaves -/

/-- The float that stands for all floats, `4.2`. -/
def floatSample : Double := ⟨false, 0x10CCCCCCCCCCCD, -50, by decide⟩

/-- The value that stands for all values of a scalar type. Other scalars than the three that are
spelled otherwise are treated as strings. -/
def scalarSample (type field : Name) : Json :=
  match type with
  | "Int" => .ofInt 42
  | "Float" => .number (.double floatSample)
  | "Boolean" => .bool false
  | _ => .string ("mock-value-for-field-\"" ++ field ++ "\"")

/-- The value of a leaf field without a resolver; an enum without members has none. -/
def leafSample (schema : TypeSystem) (kind : TypeKind) (type field : Name) : Option Json :=
  match kind with
  | .enum => (schema.firstEnumValue? type).map .string
  | _ => some (scalarSample type field)

/-! ## 3. Fields -/

/-- The type of a field inside its lists: its name, its kind and the number of lists. -/
structure Target where
  name : Name
  kind : TypeKind
  depth : Nat

/-- Looks up what a field leads to. -/
def target (schema : TypeSystem) (cursor field : Name) : Except Mismatch Target := do
  let type ← schema.fieldType cursor field
  match schema.kind? type.innerName with
  | some kind => return ⟨type.innerName, kind, type.unwrap.2⟩
  | none => throw (.unknownType type.innerName)

/-- The mock of a composite field under a resolver's value: an object is laid over it, anything else
replaces it. -/
def overlay (mock : Json.Object) : Option Json → Json
  | none => .object mock
  | some (.object overrides) => .object (mock.merge overrides)
  | some value => value

/-- The value of a field that leads to `target`. The selections are walked before the resolver is
called; a type of no selectable kind is refused. -/
def fieldValue (context : Context) (field : Name) (target : Target) (nested : Walk Json.Object) :
    Walk (Option Json) := do
  match target.kind with
  | .scalar | .enum =>
    match ← resolve context target.name with
    | some value => return some value
    | none => return leafSample context.schema target.kind target.name field
  | .object | .interface | .union =>
    let mock ← nested
    return some (overlay mock (← resolve context target.name))
  | .inputObject => throw (.mismatch (.invalidType target.name target.kind))

/-- The members that a field contributes: one under its response key, or none. -/
def fieldMembers (key : String) (depth : Nat) : Option Json → Json.Object
  | some value => [(key, value.wrap depth)]
  | none => []

/-! ## 4. Selections -/

mutual

/-- What a selection on the type `cursor` contributes, where `spread` walks a fragment. -/
def contribution (context : Context) (spread : Name → Walk Json.Object) (cursor : Name) :
    Selection → Walk Json.Object
  | .field alias? name _ _ nested => do
    let key := alias?.getD name
    if name = "__typename" then return [(key, .string cursor)]
    else
      let target ← require (target context.schema cursor name)
      let value? ← fieldValue context name target
        (selectionsInto context spread target.name [] nested)
      return fieldMembers key target.depth value?
  | .spread name _ => spread name
  | .inline condition _ nested =>
    selectionsInto context spread (condition.getD cursor) [] nested

/-- Merges what selections on the type `cursor` contribute into `mock`. -/
def selectionsInto (context : Context) (spread : Name → Walk Json.Object) (cursor : Name)
    (mock : Json.Object) : List Selection → Walk Json.Object
  | [] => return mock
  | selection :: rest => do
    let members ← contribution context spread cursor selection
    selectionsInto context spread cursor (mock.merge members) rest

end

/-! ## 5. Fragments -/

/-- The object of a fragment where it is spread: that of its first walk, which `walk` carries out and
which is noted before and after. -/
def spreadWith (context : Context) (walk : Fragment → Walk Json.Object) (name : Name) :
    Walk Json.Object := do
  match context.fragment? name with
  | none => throw (.unknownFragment name)
  | some fragment =>
    match (← get).progress? name with
    | some (.finished mock) => return mock
    | some .started => throw (.cyclicFragment name)
    | none =>
      note name .started
      let mock ← walk fragment
      note name (.finished mock)
      return mock

/-- Walks a fragment, or copies what its first walk gave. At most `depth` fragments are walked
inside each other. -/
def spreadAt (context : Context) : Nat → Name → Walk Json.Object
  | 0 => spreadWith context fun fragment => throw (.cyclicFragment fragment.name)
  | depth + 1 => spreadWith context fun fragment =>
    selectionsInto context (spreadAt context depth) fragment.typeCondition [] fragment.selections

/-- The mock of selections on the type `cursor`. -/
def selections (context : Context) (cursor : Name) (set : List Selection) : Walk Json.Object :=
  selectionsInto context (spreadAt context context.fragments.length) cursor [] set

/-- Walks selections from the start, with fragments that were not spread yet. -/
def perform (context : Context) (cursor : Name) (set : List Selection) (calls : Calls) :
    Except WalkError Json.Object × Calls :=
  let (result, state) := StateT.run (ExceptT.run (selections context cursor set)) ⟨[], calls⟩
  (result, state.calls)

end Walk

end MockGraph
