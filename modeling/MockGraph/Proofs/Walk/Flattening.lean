import MockGraph.Proofs.Json.Merge
import MockGraph.Proofs.Walk.Expansion

/-!
# `Proofs/Walk/Flattening`: the mock of selections as one list of entries

`entries` goes through selections in document order and lists a key and a value for every field.
What an inline fragment or a spread selects stands in its place in the list, however deep it is.
Nothing is merged on the way: the list may hold a key many times.

Main statement, `perform_eq_lastWins`: the mock of selections is what this list becomes if of the
entries with one key the last gives the value and the first gives the place. A walk does not make
the list. It merges what is merged already, and it copies the objects of fragments; both change
nothing, by `merge_lastWins`.
-/

set_option autoImplicit false

namespace MockGraph.Walk

open Syntax

/-! ## 1. Entries -/

mutual

/-- What a selection on the type `cursor` contributes, where `inside` gives the entries of a
fragment. The object of a composite field consists of the entries of the selections on it. -/
def entriesOf (context : Context) (inside : Name → Json.Object) (cursor : Name) :
    Selection → Json.Object
  | .field alias? name _ _ nested =>
    if name = "__typename" then [(alias?.getD name, .string cursor)]
    else
      match target context.schema cursor name with
      | .error _ => []
      | .ok found =>
        let answer := context.registry.constant? found.name
        let mock := Json.Object.lastWins (entriesIn context inside found.name nested)
        fieldMembers (alias?.getD name) found.depth
          (if found.kind.isComposite then some (overlay mock answer)
            else answer.or (leafSample context.schema found.kind found.name name))
  | .spread name _ => inside name
  | .inline condition _ nested => entriesIn context inside (condition.getD cursor) nested

def entriesIn (context : Context) (inside : Name → Json.Object) (cursor : Name) :
    List Selection → Json.Object
  | [] => []
  | selection :: rest =>
    entriesOf context inside cursor selection ++ entriesIn context inside cursor rest

end

/-- The entries of a fragment where those on `stack` are being expanded. -/
def fragmentEntries (context : Context) (stack : List Name) (name : Name) : Json.Object :=
  match _hf : context.fragment? name with
  | none => []
  | some fragment =>
    if _hn : name ∈ stack then []
    else
      entriesIn context (fun inner => fragmentEntries context (name :: stack) inner)
        fragment.typeCondition fragment.selections
termination_by (offStack context stack).length
decreasing_by exact length_offStack_cons_lt _hf _hn

/-- The entries of selections on the type `cursor`, in document order. -/
def entries (context : Context) (cursor : Name) (set : List Selection) : Json.Object :=
  entriesIn context (fragmentEntries context []) cursor set

section Equations

variable {context : Context} {cursor name : Name} {inside : Name → Json.Object}
  {alias? : Option Name} {arguments : List Argument} {directives : List Directive}
  {nested : List Selection} {found : Target} {stack : List Name} {fragment : Fragment}

theorem fragmentEntries_not_mem (hf : context.fragment? name = some fragment) (hn : name ∉ stack) :
    fragmentEntries context stack name =
      entriesIn context (fragmentEntries context (name :: stack)) fragment.typeCondition
        fragment.selections := by
  rw [fragmentEntries]
  split
  · simp_all
  · next found hf' =>
    cases hf.symm.trans hf'
    rw [dif_neg hn]

theorem entriesOf_typename (hn : name = "__typename") :
    entriesOf context inside cursor (.field alias? name arguments directives nested) =
      [(alias?.getD name, .string cursor)] := by
  rw [entriesOf, if_pos hn]

theorem entriesOf_leaf (hn : name ≠ "__typename")
    (ht : target context.schema cursor name = .ok found) (hk : found.kind.isComposite = false) :
    entriesOf context inside cursor (.field alias? name arguments directives nested) =
      fieldMembers (alias?.getD name) found.depth
        ((context.registry.constant? found.name).or
          (leafSample context.schema found.kind found.name name)) := by
  simp [entriesOf, hn, ht, hk]

theorem entriesOf_composite (hn : name ≠ "__typename")
    (ht : target context.schema cursor name = .ok found) (hk : found.kind.isComposite = true) :
    entriesOf context inside cursor (.field alias? name arguments directives nested) =
      fieldMembers (alias?.getD name) found.depth
        (some (overlay (Json.Object.lastWins (entriesIn context inside found.name nested))
          (context.registry.constant? found.name))) := by
  simp [entriesOf, hn, ht, hk]

end Equations

/-! ## 2. An expansion merges its entries -/

section Merge

variable {context : Context} {expand : Name → Except WalkError Json.Object}
  {inside : Name → Json.Object}

mutual

/-- What a selection contributes is merged like its entries. -/
theorem merge_of_expandOne
    (hi : ∀ name mock, expand name = .ok mock → mock = Json.Object.lastWins (inside name))
    {cursor : Name} {members : Json.Object} :
    ∀ selection, expandOne context expand cursor selection = .ok members →
      ∀ mock : Json.Object,
        mock.merge members = mock.merge (entriesOf context inside cursor selection)
  | .field alias? name arguments directives nested, h => by
    intro mock
    rcases expandOne_ok h with hn | ⟨hn, found, ht, hne⟩
    · rw [expandOne_typename hn] at h
      cases h
      rw [entriesOf_typename hn]
    cases hk : found.kind.isComposite with
    | false =>
      rw [expandOne_leaf hn ht hk hne] at h
      cases h
      rw [entriesOf_leaf hn ht hk]
    | true =>
      obtain ⟨inner, hnested, rfl⟩ := expandOne_composite_ok hn ht hk h
      have hinner := merge_of_expandAll hi nested hnested
      rw [entriesOf_composite hn ht hk, hinner, Json.Object.merge_nil_eq_lastWins]
  | .spread name directives, h => by
    intro mock
    rw [hi name members h, Json.Object.merge_lastWins, entriesOf]
  | .inline condition directives nested, h => by
    intro mock
    rw [expandOne] at h
    rw [merge_of_expandAll hi nested h, Json.Object.merge_merge_nil, entriesOf]

theorem merge_of_expandAll
    (hi : ∀ name mock, expand name = .ok mock → mock = Json.Object.lastWins (inside name))
    {cursor : Name} {mock after : Json.Object} :
    ∀ set, expandAll context expand cursor mock set = .ok after →
      after = mock.merge (entriesIn context inside cursor set)
  | [], h => by
    cases h
    rfl
  | selection :: rest, h => by
    obtain ⟨members, hone, hrest⟩ := expandAll_cons_ok h
    rw [merge_of_expandAll hi rest hrest, merge_of_expandOne hi selection hone]
    rw [entriesIn, Json.Object.merge_append]

end

end Merge

/-- The object of a fragment consists of its entries. -/
theorem eq_lastWins_of_expandFragment {context : Context} {stack : List Name} {name : Name}
    {mock : Json.Object} (h : expandFragment context stack name = .ok mock) :
    mock = Json.Object.lastWins (fragmentEntries context stack name) := by
  obtain ⟨fragment, hf, hn, hall⟩ := expandFragment_ok h
  have hi : ∀ inner found, expandFragment context (name :: stack) inner = .ok found →
      found = Json.Object.lastWins (fragmentEntries context (name :: stack) inner) :=
    fun inner found hi => eq_lastWins_of_expandFragment hi
  rw [fragmentEntries_not_mem hf hn, merge_of_expandAll hi _ hall,
    Json.Object.merge_nil_eq_lastWins]
termination_by (offStack context stack).length
decreasing_by exact length_offStack_cons_lt hf hn

/-! ## 3. Walks -/

/-- **The last entry of a key wins.** If a walk with constant resolvers gives an object, the keys of
the object are those of the entries in the order in which they come first, and under each of them
the object holds the value that comes last. -/
theorem perform_eq_lastWins (context : Context) (hc : context.registry.IsConstant) (cursor : Name)
    (set : List Selection) (calls : Calls) {mock : Json.Object}
    (h : (perform context cursor set calls).1 = .ok mock) :
    mock = Json.Object.lastWins (entries context cursor set) ∧
    mock.keys = (entries context cursor set).keys.eraseDups ∧
    ∀ key, mock.get? key = Json.Object.get? (entries context cursor set).reverse key := by
  obtain ⟨after, hw, -⟩ := runs_perform context cursor set calls
  have hall := hw.eq_expandAll hc
  rw [h] at hall
  have hmerge : mock = Json.Object.merge [] (entries context cursor set) :=
    merge_of_expandAll (fun _ _ hx => eq_lastWins_of_expandFragment hx) set hall
  rw [Json.Object.merge_nil_eq_lastWins] at hmerge
  subst hmerge
  exact ⟨rfl, Json.Object.keys_lastWins _, Json.Object.get?_lastWins _⟩

namespace Sample

/-- Selections in which `me` stands three times: as a field, as an alias in an inline fragment, and
as a field again, with a fragment that is spread twice. -/
def colliding : List Selection :=
  [field "me" [spread "member"],
    .inline (some "Query") [] [
      field "users" [spread "teamOf"], .field (some "me") "__typename" [] [] []],
    field "me" [field "team" [], spread "member", field "name" []]]

end Sample

/-- The last `me` wins, and it stands in front of `users`. -/
theorem perform_eq_lastWins_colliding :
    let context : Context :=
      ⟨Sample.staff, .ofConstants [("Team", .object [("id", .null)])],
        [Sample.member, Sample.teamOf]⟩
    let team : Json := .object [("id", .null)]
    let me : Json := .object
      [("team", team), ("name", .string "mock-value-for-field-\"name\"")]
    let mock : Json.Object :=
      [("me", me), ("users", .array [.object [("team", team)]])]
    context.registry.IsConstant ∧ (perform context "Query" Sample.colliding []).1 = .ok mock ∧
      mock = Json.Object.lastWins (entries context "Query" Sample.colliding) ∧
      mock.keys = (entries context "Query" Sample.colliding).keys.eraseDups ∧
      ∀ key, mock.get? key =
        Json.Object.get? (entries context "Query" Sample.colliding).reverse key := by
  intro context team me mock
  have hc : context.registry.IsConstant := Registry.isConstant_ofConstants _
  have hmock : (perform context "Query" Sample.colliding []).1 = .ok mock := rfl
  exact ⟨hc, hmock, perform_eq_lastWins context hc "Query" Sample.colliding [] hmock⟩

end MockGraph.Walk
