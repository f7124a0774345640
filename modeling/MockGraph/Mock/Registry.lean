import MockGraph.Json.Basic
import MockGraph.Text.Visible

/-!
# `Mock/Registry`: values that callers supply for types

A `Registry` binds type names to resolvers. A resolver is a constant, or a generator that yields one
value for each of its calls. A generator has an identity, and what it yields next depends on how
often that identity was called before. So copies of a registry have bindings of their own while the
generators they share go on in one common sequence, which the log of `Calls` keeps.
-/

set_option autoImplicit false

namespace MockGraph

/-! ## 1. Resolvers -/

/-- Where the value of a type comes from. -/
inductive Resolver where
  /-- The same value on every call. -/
  | constant (value : Json)
  /-- The value that `yield` has for the number of calls before. -/
  | generator (id : Nat) (yield : Nat → Json)

/-- The generators that were called, the last call first. -/
abbrev Calls := List Nat

namespace Resolver

/-- A generator that goes through a list over and over. -/
def cycling (id : Nat) (values : List Json) : Resolver :=
  .generator id fun calls => values[calls % values.length]?.getD .null

def call : Resolver → StateM Calls Json
  | .constant value => pure value
  | .generator id yield => do
    let calls ← get
    set (id :: calls)
    return yield (calls.count id)

end Resolver

/-! ## 2. Registries -/

/-- Resolvers by type name. -/
structure Registry where
  bindings : List (String × Resolver)

namespace Registry

/-- The registry without resolvers. -/
def empty : Registry := ⟨[]⟩

/-- The resolver that is bound to a name. -/
def get? (registry : Registry) (name : String) : Option Resolver :=
  (registry.bindings.find? (·.1 = name)).map (·.2)

/-- Whether a name is bound. -/
def contains (registry : Registry) (name : String) : Bool := (registry.get? name).isSome

/-- Binds a name, in place of what it was bound to. -/
def insert (registry : Registry) (name : String) (resolver : Resolver) : Registry :=
  ⟨(name, resolver) :: registry.bindings.filter (·.1 ≠ name)⟩

/-- How many names are bound. -/
def size (registry : Registry) : Nat := registry.bindings.length

/-- Whether no name is bound. -/
def isEmpty (registry : Registry) : Bool := registry.bindings.isEmpty

/-- Adds a constant for every member of an object. -/
def insertConstants (registry : Registry) (constants : Json.Object) : Registry :=
  constants.foldl (fun registry (name, value) => registry.insert name (.constant value)) registry

/-- One constant for every member of an object. -/
def ofConstants (constants : Json.Object) : Registry := empty.insertConstants constants

/-- The value that the resolver of a name supplies, if the name is bound. -/
def call (registry : Registry) (name : String) : StateM Calls (Option Json) :=
  match registry.get? name with
  | none => pure none
  | some resolver => do return some (← resolver.call)

/-- The bound names in the order of their code points. -/
def names (registry : Registry) : List String :=
  (registry.bindings.map (·.1)).mergeSort fun a b => decide (a ≤ b)

/-- A registry as it is shown: by the names it binds. -/
def describe (registry : Registry) : String :=
  "Resolvers \x7b type_names: [" ++ ", ".intercalate (registry.names.map Text.showVisibly) ++
    "] \x7d"

@[simp] theorem get?_insert_self (registry : Registry) (name : String) (resolver : Resolver) :
    (registry.insert name resolver).get? name = some resolver := by
  simp [insert, get?]

theorem get?_insert_of_ne (registry : Registry) {name other : String} (resolver : Resolver)
    (h : other ≠ name) : (registry.insert name resolver).get? other = registry.get? other := by
  have hd : ¬ name = other := fun e => h e.symm
  simp only [insert, get?, List.find?_cons, hd, decide_false, List.find?_filter]
  congr 2
  funext binding
  by_cases hb : binding.1 = other <;> simp [hb, h]

end Registry

end MockGraph
