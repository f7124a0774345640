import MockGraph.Json.Path
import MockGraph.Proofs.Json.Merge

/-!
# `Proofs/Json/Slots`: one step of an assignment

A step addresses a slot of a value: a member of an object or an item of a list. `child?` reads what
is in the slot, `refuses` tells whether the slot can neither be found nor made, and `put` fills it
after it was made. An assignment is made of these three (`assignAt_cons`): it goes on in the child,
or in a null where there is none, and puts what comes back into the slot.

So whatever is to be said of whole paths is said of one slot here: what `put` leaves in the slot
(`child?_put`) and in all others (`child?_put_of_apart`), that the last of two values stays
(`put_put`), and that putting back what is there changes nothing (`put_child?`).
-/

set_option autoImplicit false

namespace MockGraph.Json

/-! ## 1. Slots -/

/-- What is in the slot that a step addresses. -/
def child? (x : Json) (step : Step) : Option Json :=
  match x, step with
  | .object members, step => Object.get? members step.spelling
  | .array items, .index i => items[i.toNat]?
  | _, _ => none

/-- Whether a value has no slot for a step and gets none: it is a scalar, or a list that is asked for
a key or for an item too far behind its end. A null is taken for the container that the step needs. -/
def refuses : Json → Step → Bool
  | .object _, _ | .null, .key _ => false
  | .null, .index i => maxPadding < i.toNat + 1
  | .array items, .index i => maxPadding < i.toNat + 1 - items.length
  | _, _ => true

/-- A value whose slot for a step is made, if it was missing, and filled. -/
def put (x : Json) (step : Step) (child : Json) : Json :=
  match x.opened step, step with
  | .object members, step => .object (Object.insert members step.spelling child)
  | .array items, .index i =>
    .array ((items ++ List.replicate (i.toNat + 1 - items.length) null).set i.toNat child)
  | current, _ => current

/-- Whether two steps address one slot of a value. In an object it does not matter whether a number
is an index or a key. -/
def SameSlot : Json → Step → Step → Prop
  | .object _, step, other => step.spelling = other.spelling
  | _, step, other => step = other

instance : (x : Json) → (step other : Step) → Decidable (x.SameSlot step other)
  | .object _, step, other => inferInstanceAs (Decidable (step.spelling = other.spelling))
  | .null, step, other | .bool _, step, other | .number _, step, other | .string _, step, other
  | .array _, step, other => inferInstanceAs (Decidable (step = other))

/-! ## 2. Reading and assigning step by step -/

section Cons

variable (x : Json) (step : Step) (rest : Path) (value : Json)

theorem get?_cons : x.get? (step :: rest) = (x.child? step).bind (get? · rest) := by
  cases x with
  | array items => cases step <;> rfl
  | _ => rfl

/-- The child in a list that is padded up to it. -/
theorem padded_getElem? (items : List Json) (i : Nat) :
    (items ++ List.replicate (i + 1 - items.length) .null)[i]?.getD .null =
      items[i]?.getD .null := by
  by_cases hi : i < items.length
  · rw [List.getElem?_append_left hi]
  · have hpad : i - items.length < i + 1 - items.length := by omega
    rw [List.getElem?_append_right (by omega), List.getElem?_replicate_of_lt hpad,
      List.getElem?_eq_none (by omega)]
    rfl

/-- An assignment is dropped at its first step, or it is one in the child, which is then put back. -/
theorem assignAt_cons :
    assignAt (step :: rest) x value =
      if x.refuses step then ⟨x.opened step, false⟩
      else
        let child := assignAt rest ((x.child? step).getD .null) value
        ⟨x.put step child.value, child.applied⟩ := by
  cases x with
  | object members => rfl
  | array items =>
    cases step with
    | key name => rfl
    | index i =>
      by_cases hp : i.toNat + 1 - items.length ≤ maxPadding
      · have hr : (array items).refuses (.index i) = false := decide_eq_false (by omega)
        simp [assignAt, opened, put, child?, hp, hr, padded_getElem?]
      · have hr : (array items).refuses (.index i) = true := decide_eq_true (by omega)
        simp [assignAt, opened, hp, hr]
  | null =>
    cases step with
    | key name => rfl
    | index i =>
      by_cases hp : i.toNat + 1 ≤ maxPadding
      · have hr : null.refuses (.index i) = false := decide_eq_false (by omega)
        simp [assignAt, opened, put, child?, hp, hr]
      · have hr : null.refuses (.index i) = true := decide_eq_true (by omega)
        simp [assignAt, opened, hp, hr]
  | bool | number | string => cases step <;> rfl

theorem assignAt_of_refuses (hr : x.refuses step = true) :
    assignAt (step :: rest) x value = ⟨x.opened step, false⟩ := by
  rw [assignAt_cons, if_pos hr]

theorem assignAt_of_not_refuses (hr : x.refuses step = false) :
    assignAt (step :: rest) x value =
      ⟨x.put step (assignAt rest ((x.child? step).getD .null) value).value,
        (assignAt rest ((x.child? step).getD .null) value).applied⟩ := by
  rw [assignAt_cons, if_neg (by simp [hr])]

end Cons

/-! ## 3. Laws of one slot -/

section Slot

variable {x child : Json} {step other : Step}

theorem refuses_of_child? (h : x.child? step = some child) : x.refuses step = false := by
  cases x with
  | object members => rfl
  | array items =>
    cases step with
    | key name => cases h
    | index i =>
      have hi : i.toNat < items.length := (List.getElem?_eq_some_iff.mp h).1
      have hnone : i.toNat + 1 - items.length = 0 := by omega
      simp [refuses, hnone]
  | _ => cases step <;> cases h

/-- What was put into a slot is there. -/
theorem child?_put (hr : x.refuses step = false) (child : Json) :
    (x.put step child).child? step = some child := by
  have hlist : ∀ (items : List Json) (i : Nat),
      ((items ++ List.replicate (i + 1 - items.length) null).set i child)[i]? = some child := by
    intro items i
    -- Padded up to `i`, the list has an item there to be replaced.
    exact List.getElem?_set_self (by simp only [List.length_append, List.length_replicate]; omega)
  cases x with
  | object members => exact Object.get?_insert_self ..
  | array items =>
    cases step with
    | key name => cases hr
    | index i => exact hlist items i.toNat
  | null =>
    cases step with
    | key name => exact Object.get?_insert_self ..
    | index i => exact hlist [] i.toNat
  | bool | number | string => cases step <;> cases hr

/-- What is in another slot stays there. -/
theorem child?_put_of_apart {found : Json} (hs : ¬ x.SameSlot other step)
    (ho : x.child? other = some found) (child : Json) :
    (x.put step child).child? other = some found := by
  cases x with
  | object members => exact (Object.get?_insert_of_ne members child hs).trans ho
  | array items =>
    cases other with
    | key name => cases ho
    | index j =>
      cases step with
      | key name => exact ho
      | index i =>
        have hne : i.toNat ≠ j.toNat := fun h => hs (congrArg Step.index (UInt64.toNat_inj.mp h).symm)
        have hj : j.toNat < items.length := (List.getElem?_eq_some_iff.mp ho).1
        -- Item `j` is there before, so neither the padding nor the new item reaches it.
        change ((items ++ _).set i.toNat child)[j.toNat]? = some found
        rw [List.getElem?_set_ne hne, List.getElem?_append_left hj]
        exact ho
  | _ => cases other <;> cases ho

theorem child?_congr (hs : x.SameSlot other step) : x.child? other = x.child? step := by
  cases x with
  | object members => exact congrArg (Object.get? members) hs
  | _ =>
    cases hs
    rfl

theorem SameSlot.refl (x : Json) (step : Step) : x.SameSlot step step := by
  cases x <;> rfl

theorem SameSlot.put (hs : x.SameSlot other step) (child : Json) :
    (x.put step child).SameSlot other step := by
  cases x with
  | object members => exact hs
  | _ =>
    cases hs
    exact SameSlot.refl _ step

/-- A filled slot can be filled again. -/
theorem refuses_put (hr : x.refuses step = false) (child : Json) :
    (x.put step child).refuses step = false :=
  refuses_of_child? (child?_put hr child)

/-- Of two values that are put into one slot the last stays. -/
theorem put_put (hr : x.refuses step = false) (child child' : Json) :
    (x.put step child).put step child' = x.put step child' := by
  have hlist : ∀ (items : List Json) (i : Nat),
      let padded := (items ++ List.replicate (i + 1 - items.length) null).set i child
      (padded ++ List.replicate (i + 1 - padded.length) null).set i child' =
        (items ++ List.replicate (i + 1 - items.length) null).set i child' := by
    intro items i padded
    -- The second time there is nothing left to pad.
    have hlong : i + 1 - padded.length = 0 := by
      simp only [padded, List.length_set, List.length_append, List.length_replicate]
      omega
    rw [hlong, List.replicate_zero, List.append_nil, List.set_set]
  cases x with
  | object members => exact congrArg object (Object.insert_insert_self ..)
  | array items =>
    cases step with
    | key name => cases hr
    | index i => exact congrArg array (hlist items i.toNat)
  | null =>
    cases step with
    | key name => exact congrArg object (Object.insert_insert_self ..)
    | index i => exact congrArg array (hlist [] i.toNat)
  | bool | number | string => cases step <;> cases hr

theorem Object.insert_get? {o : Object} {key : String} {value : Json} (h : o.get? key = some value) :
    o.insert key value = o := by
  induction o with
  | nil => cases h
  | cons member rest ih =>
    obtain ⟨k, v⟩ := member
    by_cases hk : k = key
    · subst hk
      have hv : v = value := by simpa [get?] using h
      simp [insert, hv]
    · have hrest : get? rest key = some value := by simpa [get?, hk] using h
      simp [insert, hk, ih hrest]

/-- Putting back what is in a slot changes nothing. -/
theorem put_child? (h : x.child? step = some child) : x.put step child = x := by
  cases x with
  | object members => exact congrArg object (Object.insert_get? h)
  | array items =>
    cases step with
    | key name => cases h
    | index i =>
      obtain ⟨hi, hv⟩ := List.getElem?_eq_some_iff.mp h
      have hnone : i.toNat + 1 - items.length = 0 := by omega
      change array ((items ++ _).set i.toNat child) = array items
      rw [hnone, List.replicate_zero, List.append_nil, ← hv, List.set_getElem_self]
  | _ => cases step <;> cases h

/-! ## 4. Opened values -/

theorem opened_opened (x : Json) (step : Step) : (x.opened step).opened step = x.opened step := by
  cases x with
  | null => cases step <;> rfl
  | _ => cases step <;> rfl

theorem refuses_opened (x : Json) (step : Step) : (x.opened step).refuses step = x.refuses step := by
  cases x with
  | null => cases step <;> rfl
  | _ => cases step <;> rfl

theorem opened_of_ne_null (h : x ≠ null) (step : Step) : x.opened step = x := by
  cases x with
  | null => exact absurd rfl h
  | _ => cases step <;> rfl

end Slot

end MockGraph.Json
