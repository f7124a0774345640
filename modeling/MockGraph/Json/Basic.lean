import MockGraph.Json.Number

/-!
# `Json/Basic`: JSON values with ordered members

The members of an object are a list of pairs in their written order; a key stands at most once in
the objects that this library builds. `Object.insert` keeps the position of a key that is already
there and puts a new key at the end, and `Object.merge` inserts the members of one object into
another. So a merge holds the last value of each key at the place of its first occurrence.
-/

set_option autoImplicit false

namespace MockGraph

/-! ## 1. Values -/

/-- A JSON value. -/
inductive Json where
  | null
  | bool (value : Bool)
  | number (value : Number)
  | string (value : String)
  | array (items : List Json)
  | object (members : List (String × Json))

namespace Json

/-- The members of an object, in order. -/
abbrev Object := List (String × Json)

/-- A small integer as a value. -/
def ofInt (n : Int) (fits : Number.Fits n := by decide) : Json := .number (.integer n fits)

/-! ## 2. Objects -/

namespace Object

/-- The value under a key. -/
def get? (o : Object) (key : String) : Option Json :=
  (o.find? (·.1 = key)).map (·.2)

/-- The keys in order. -/
def keys (o : Object) : List String := o.map (·.1)

/-- Puts a value under a key: in place when the key is there, else at the end. -/
def insert : Object → String → Json → Object
  | [], key, value => [(key, value)]
  | (k, v) :: rest, key, value =>
    if k = key then (key, value) :: rest else (k, v) :: insert rest key value

/-- Puts every member of `other` into `o`. The values of `other` win, the places of `o` stay. -/
def merge (o other : Object) : Object :=
  other.foldl (fun acc member => acc.insert member.1 member.2) o

@[simp] theorem merge_nil (o : Object) : o.merge [] = o := rfl

@[simp] theorem merge_cons (o : Object) (key : String) (value : Json) (rest : Object) :
    o.merge ((key, value) :: rest) = (o.insert key value).merge rest := rfl

@[simp] theorem get?_insert_self (o : Object) (key : String) (value : Json) :
    (o.insert key value).get? key = some value := by
  induction o with
  | nil => simp [insert, get?]
  | cons member rest ih =>
    obtain ⟨k, v⟩ := member
    unfold insert
    split
    · simp [get?]
    · next h => simpa [get?, h] using ih

theorem get?_insert_of_ne (o : Object) {key other : String} (value : Json) (h : other ≠ key) :
    (o.insert key value).get? other = o.get? other := by
  induction o with
  | nil => simp [insert, get?, h.symm]
  | cons member rest ih =>
    obtain ⟨k, v⟩ := member
    unfold insert
    split
    · next hk => subst hk; simp [get?, h.symm]
    · by_cases hk : k = other
      · simp [get?, hk]
      · simpa [get?, hk] using ih

/-- Insertion adds a key at the end, or none. -/
theorem keys_insert (o : Object) (key : String) (value : Json) :
    (o.insert key value).keys = if key ∈ o.keys then o.keys else o.keys ++ [key] := by
  induction o with
  | nil => simp [insert, keys]
  | cons member rest ih =>
    obtain ⟨k, v⟩ := member
    unfold insert
    split
    · next hk => subst hk; simp [keys]
    · next hk =>
      have hk' : key ≠ k := fun h => hk h.symm
      simp only [keys, List.map_cons, List.mem_cons, hk', false_or] at ih ⊢
      rw [ih]
      split <;> simp [*]

end Object

/-! ## 3. Lists around a value -/

/-- A value inside as many one-element lists as `depth` says. -/
def wrap (value : Json) : Nat → Json
  | 0 => value
  | depth + 1 => .array [wrap value depth]

end Json

end MockGraph
