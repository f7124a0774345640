import MockGraph.Proofs.Json.Slots

/-!
# `Proofs/Json/Assignment`: what assignments change

An assignment obeys the laws of a lens (`assign_lens`): what took effect can be read back, of two
assignments at one path the last stays, and assigning what is there changes nothing. Off its path it
changes nothing, and on its path no more than it needs (`assign_frame`): objects get at most one key
and lists get nulls, both at the end, and only a null becomes something of another kind.

An assignment that is dropped may leave something behind (`assign_of_dropped`). It leaves the value as
it was exactly if the step that was refused met a value that is there. Otherwise that step asked for
an item too far behind, on a level that was missing or null, and the empty list which was made there
stays, with all levels above it.
-/

set_option autoImplicit false

namespace MockGraph.Json

section Laws

variable {x found v u : Json} {path : Path}

/-! ## 1. The laws of a lens -/

theorem get?_assignAt (h : (assignAt path x v).applied = true) :
    (assignAt path x v).value.get? path = some v := by
  induction path generalizing x with
  | nil => rfl
  | cons step rest ih =>
    cases hr : x.refuses step with
    | true =>
      rw [assignAt_of_refuses _ _ _ _ hr] at h
      cases h
    | false =>
      rw [assignAt_of_not_refuses _ _ _ _ hr] at h ⊢
      rw [get?_cons, child?_put hr, Option.bind_some]
      exact ih h

/-- Assigning what is there changes nothing, and takes effect. -/
theorem assignAt_get? (h : x.get? path = some u) : assignAt path x u = ⟨x, true⟩ := by
  induction path generalizing x with
  | nil =>
    cases h
    rfl
  | cons step rest ih =>
    rw [get?_cons] at h
    obtain ⟨child, hc, hu⟩ := Option.bind_eq_some_iff.mp h
    rw [assignAt_of_not_refuses _ _ _ _ (refuses_of_child? hc), hc, Option.getD_some, ih hu,
      put_child? hc]

/-- Of two assignments at one path the last counts, and the first decides nothing about it. -/
theorem assignAt_assignAt (path : Path) (x v w : Json) :
    assignAt path (assignAt path x v).value w = assignAt path x w := by
  induction path generalizing x with
  | nil => rfl
  | cons step rest ih =>
    cases hr : x.refuses step with
    | true =>
      -- A null may have been opened in vain; what was opened is refused again and stays as it is.
      have hopened : (x.opened step).refuses step = true := (refuses_opened x step).trans hr
      rw [assignAt_of_refuses _ _ _ v hr, assignAt_of_refuses _ _ _ w hr,
        assignAt_of_refuses _ _ _ w hopened, opened_opened]
    | false =>
      rw [assignAt_of_not_refuses _ _ _ v hr, assignAt_of_not_refuses _ _ _ w hr,
        assignAt_of_not_refuses _ _ _ w (refuses_put hr _), child?_put hr, Option.getD_some, ih,
        put_put hr]

/-- An assignment that first goes where something is goes on in that and puts it back. -/
theorem assignAt_append {before : Path} (h : x.get? before = some found) (rest : Path) (v : Json) :
    assignAt (before ++ rest) x v =
      ⟨(assignAt before x (assignAt rest found v).value).value, (assignAt rest found v).applied⟩ := by
  induction before generalizing x with
  | nil =>
    cases h
    rfl
  | cons step before ih =>
    rw [get?_cons] at h
    obtain ⟨child, hc, hf⟩ := Option.bind_eq_some_iff.mp h
    have hr := refuses_of_child? hc
    rw [List.cons_append, assignAt_of_not_refuses _ _ _ _ hr, assignAt_of_not_refuses _ _ _ _ hr,
      hc, Option.getD_some, ih hf]

/-- What is at the beginning of a path gets there what the rest of the path makes of it. -/
theorem get?_assignAt_append {before : Path} (h : x.get? before = some found) (rest : Path)
    (v : Json) :
    (assignAt (before ++ rest) x v).value.get? before = some (assignAt rest found v).value := by
  rw [assignAt_append h]
  have hthere : (assignAt before x (assignAt rest found v).value).applied = true := by
    -- The same lemma with nothing after `before`: an assignment to what is there takes effect.
    have hsame := assignAt_append h [] (assignAt rest found v).value
    rw [List.append_nil] at hsame
    rw [hsame]
    rfl
  exact get?_assignAt hthere

end Laws

/-- **Assignments obey the laws of a lens.** What an assignment put at a path that is not empty is read
there, if it took effect; assigning twice is assigning the last value, whether or not the assignments
are dropped; and assigning what is there takes effect and changes nothing. -/
theorem assign_lens (x : Json) (step : Step) (rest : Path) (v w : Json) :
    ((assignAt (step :: rest) x v).applied = true →
      (x.assign (step :: rest) v).get? (step :: rest) = some v) ∧
    assignAt (step :: rest) (x.assign (step :: rest) v) w = assignAt (step :: rest) x w ∧
    (x.assign (step :: rest) v).assign (step :: rest) w = x.assign (step :: rest) w ∧
    ∀ u, x.get? (step :: rest) = some u →
      (assignAt (step :: rest) x u).applied = true ∧ x.assign (step :: rest) u = x := by
  have htwice := assignAt_assignAt (step :: rest) x v w
  refine ⟨get?_assignAt, htwice, congrArg Assigned.value htwice, fun u hu => ?_⟩
  have hsame := assignAt_get? hu
  exact ⟨congrArg Assigned.applied hsame, congrArg Assigned.value hsame⟩

/-- In a list that is padded, and in an object under the key that an index spells. -/
theorem assign_lens_padded :
    let x : Json := .object [("scores", .array [.bool true])]
    let path : Path := [.key "scores", .index 2, .index 0]
    let left : Json := .object [("scores", .array [.bool true, .null, .array [.bool false]])]
    x.assign path (.bool false) = left ∧ left.get? path = some (.bool false) ∧
    left.assign path .null = x.assign path .null ∧ left.assign path (.bool false) = left := by
  intro x path left
  have hleft : x.assign path (.bool false) = left := rfl
  have hlens := assign_lens x (.key "scores") [.index 2, .index 0] (.bool false) .null
  have hagain := assign_lens left (.key "scores") [.index 2, .index 0] .null .null
  exact ⟨hleft, hlens.1 rfl, hlens.2.2.1, (hagain.2.2.2 _ (hlens.1 rfl)).2⟩

/-! ## 2. Assignments that are dropped -/

/-- A step of the path is refused by a value that is there. -/
def RefusesWithin (x : Json) (path : Path) : Prop :=
  ∃ before step rest found, path = before ++ step :: rest ∧ x.get? before = some found ∧
    found ≠ null ∧ found.refuses step = true

/-- A step of the path asks for an item too far behind on a level that is missing or null. What is
left is the value with an empty list as that level. -/
def OpensInVain (x : Json) (path : Path) (left : Json) : Prop :=
  ∃ before i rest, path = before ++ .index i :: rest ∧ maxPadding ≤ i.toNat ∧
    (x.get? before).getD null = null ∧ assignAt before x (.array []) = ⟨left, true⟩

section Dropped

variable {x child v : Json} {step : Step} {rest path : Path}

theorem RefusesWithin.cons (hc : x.child? step = some child) (h : child.RefusesWithin rest) :
    x.RefusesWithin (step :: rest) := by
  obtain ⟨before, refused, after, found, rfl, hf, hne, hr⟩ := h
  refine ⟨step :: before, refused, after, found, rfl, ?_, hne, hr⟩
  rw [get?_cons, hc]
  exact hf

theorem not_refusesWithin_null (path : Path) : ¬ null.RefusesWithin path := by
  rintro ⟨_ | ⟨step, before⟩, refused, rest, found, -, hf, hne, -⟩
  · cases hf
    exact hne rfl
  · cases hf

/-- A value that is refused by what is there leaves everything as it was. -/
theorem RefusesWithin.assignAt (h : x.RefusesWithin path) (v : Json) :
    assignAt path x v = ⟨x, false⟩ := by
  obtain ⟨before, step, rest, found, rfl, hf, hne, hr⟩ := h
  rw [assignAt_append hf, assignAt_of_refuses _ _ _ _ hr, opened_of_ne_null hne, assignAt_get? hf]

theorem OpensInVain.cons {left : Json} (hr : x.refuses step = false)
    (h : ((x.child? step).getD null).OpensInVain rest left) :
    x.OpensInVain (step :: rest) (x.put step left) := by
  obtain ⟨before, i, after, rfl, hi, hlevel, hleft⟩ := h
  refine ⟨step :: before, i, after, rfl, hi, ?_, ?_⟩
  · rw [get?_cons]
    cases hc : x.child? step with
    | none => rfl
    | some child =>
      rw [hc] at hlevel
      exact hlevel
  · rw [assignAt_of_not_refuses _ _ _ _ hr, hleft]

theorem OpensInVain.ne {left : Json} (h : x.OpensInVain path left) : left ≠ x := by
  rintro rfl
  obtain ⟨before, i, rest, rfl, -, hlevel, hleft⟩ := h
  have hread := get?_assignAt (congrArg Assigned.applied hleft)
  rw [hleft] at hread
  rw [hread] at hlevel
  cases hlevel

/-- An assignment that is dropped is refused by what is there, or opens a level in vain. -/
theorem cases_of_dropped (h : (assignAt path x v).applied = false) :
    x.RefusesWithin path ∨ x.OpensInVain path (assignAt path x v).value := by
  induction path generalizing x with
  | nil => cases h
  | cons step rest ih =>
    cases hr : x.refuses step with
    | true =>
      rw [assignAt_of_refuses _ _ _ _ hr]
      by_cases hx : x = null
      · subst hx
        cases step with
        | key name => cases hr
        | index i =>
          have hi : maxPadding < i.toNat + 1 := of_decide_eq_true hr
          exact .inr ⟨[], i, rest, rfl, by omega, rfl, rfl⟩
      · exact .inl ⟨[], step, rest, x, rfl, rfl, hx, hr⟩
    | false =>
      rw [assignAt_of_not_refuses _ _ _ _ hr] at h ⊢
      rcases ih h with hin | hvain
      · cases hc : x.child? step with
        | none =>
          -- Below a missing level there is only what the assignment makes itself.
          rw [hc] at hin
          exact absurd hin (not_refusesWithin_null rest)
        | some child =>
          rw [hc] at hin
          exact .inl (hin.cons hc)
      · exact .inr (hvain.cons hr)

end Dropped

/-- **What a dropped assignment leaves.** It leaves the value as it was exactly if the step that was
refused met a value that is there. Otherwise the levels stay that were made on the way, down to an
empty list that cannot hold the item asked for. -/
theorem assign_of_dropped {x : Json} {path : Path} {v : Json}
    (h : (assignAt path x v).applied = false) :
    (x.assign path v = x ↔ x.RefusesWithin path) ∧
    (¬ x.RefusesWithin path → x.OpensInVain path (x.assign path v)) := by
  have hassign : x.assign path v = (assignAt path x v).value := by
    cases path with
    | nil => cases h
    | cons step rest => rfl
  rw [hassign]
  rcases cases_of_dropped h with hin | hvain
  · exact ⟨⟨fun _ => hin, fun _ => congrArg Assigned.value (hin.assignAt v)⟩,
      fun hnot => absurd hin hnot⟩
  · have hnot : ¬ x.RefusesWithin path := fun hin =>
      hvain.ne (congrArg Assigned.value (hin.assignAt v))
    exact ⟨⟨fun he => absurd he hvain.ne, fun hin => absurd hin hnot⟩, fun _ => hvain⟩

/-- An item too far behind the end of a list that is there. -/
theorem assign_of_dropped_scores :
    let x : Json := .object [("scores", .array [.bool true])]
    let path : Path := [.key "scores", .index 1000000]
    (assignAt path x .null).applied = false ∧ x.RefusesWithin path ∧ x.assign path .null = x := by
  intro x path
  have hin : x.RefusesWithin path :=
    ⟨[.key "scores"], .index 1000000, [], _, rfl, rfl, nofun, rfl⟩
  exact ⟨rfl, hin, (assign_of_dropped (v := .null) rfl).1.mpr hin⟩

/-- The same item where there is a null: the list that was made for it stays. -/
theorem assign_dropped_ne :
    let x : Json := .object [("scores", .null)]
    let path : Path := [.key "scores", .index 1000000]
    (assignAt path x .null).applied = false ∧
    x.assign path .null = .object [("scores", .array [])] ∧ x.assign path .null ≠ x := by
  refine ⟨rfl, rfl, fun h => ?_⟩
  have hleft : (.object [("scores", .array [])] : Json) = .object [("scores", .null)] := h
  cases hleft

/-! ## 3. Off the path and on it -/

/-- A path leaves another one in a value: after a common part the two address different slots of one
container. -/
inductive Parts : Json → Path → Path → Prop where
  | here {x : Json} {step step' : Step} {rest rest' : Path} (h : ¬ x.SameSlot step step') :
    Parts x (step :: rest) (step' :: rest')
  | inside {x child : Json} {step step' : Step} {rest rest' : Path} (hs : x.SameSlot step step')
    (hc : x.child? step = some child) (h : Parts child rest rest') :
    Parts x (step :: rest) (step' :: rest')

/-- A step adds at most its own key to an object, at the end. -/
def AddsKey (step : Step) (members members' : Object) : Prop :=
  members'.keys = members.keys ∨
    step.spelling ∉ members.keys ∧ members'.keys = members.keys ++ [step.spelling]

/-- A step adds nulls to the end of a list, other than the item that it addresses. -/
def AddsNulls (step : Step) (items items' : List Json) : Prop :=
  items.length ≤ items'.length ∧
  ∀ j item, items.length ≤ j → items'[j]? = some item →
    item = null ∨ ∃ i, step = .index i ∧ i.toNat = j

/-- How a step on the path of an assignment may change the container that it is applied to. -/
def Grows (step : Step) : Json → Json → Prop
  | .object members, .object members' => AddsKey step members members'
  | .array items, .array items' => AddsNulls step items items'
  | .null, .object members' => AddsKey step [] members'
  | .null, .array items' => AddsNulls step [] items'
  | x, x' => x' = x

section Frame

variable {x u v : Json} {path other : Path} {step : Step} {rest : Path}

/-- Where another path leads is not changed. -/
theorem get?_assignAt_of_parts (hp : x.Parts other path) (hu : x.get? other = some u) :
    (assignAt path x v).value.get? other = some u := by
  induction hp generalizing u with
  | @here x step step' rest rest' hs =>
    rw [get?_cons] at hu
    obtain ⟨child, hc, hrest⟩ := Option.bind_eq_some_iff.mp hu
    have hthere : (assignAt (step' :: rest') x v).value.child? step = some child := by
      cases hr : x.refuses step' with
      | true =>
        -- Only a null is opened, and `other` finds something in `x`.
        have hne : x ≠ null := by
          rintro rfl
          cases hc
        rw [assignAt_of_refuses _ _ _ _ hr, opened_of_ne_null hne]
        exact hc
      | false =>
        rw [assignAt_of_not_refuses _ _ _ _ hr]
        exact child?_put_of_apart hs hc _
    rw [get?_cons, hthere]
    exact hrest
  | @inside x child step step' rest rest' hs hc hp ih =>
    rw [get?_cons, hc] at hu
    have hc' : x.child? step' = some child := (child?_congr hs).symm.trans hc
    have hr := refuses_of_child? hc'
    rw [assignAt_of_not_refuses _ _ _ _ hr, hc', get?_cons]
    have hthere : (x.put step' (assignAt rest' child v).value).child? step =
        some (assignAt rest' child v).value := by
      rw [child?_congr (hs.put _), child?_put hr]
    rw [Option.getD_some, hthere]
    exact ih hu

theorem addsNulls_refl (step : Step) (items : List Json) : AddsNulls step items items := by
  refine ⟨Nat.le_refl _, fun j item hj hitem => ?_⟩
  rw [List.getElem?_eq_none hj] at hitem
  cases hitem

theorem addsNulls_padded (items : List Json) (i : UInt64) (child : Json) :
    AddsNulls (.index i) items
      ((items ++ List.replicate (i.toNat + 1 - items.length) null).set i.toNat child) := by
  refine ⟨by simp, fun j item hj hitem => ?_⟩
  by_cases hij : i.toNat = j
  · exact .inr ⟨i, rfl, hij⟩
  · rw [List.getElem?_set_ne hij, List.getElem?_append_right hj] at hitem
    exact .inl (List.eq_of_mem_replicate (List.mem_of_getElem? hitem))

theorem addsKey_insert (step : Step) (members : Object) (child : Json) :
    AddsKey step members (Object.insert members step.spelling child) := by
  unfold AddsKey
  rw [Object.keys_insert]
  by_cases hm : step.spelling ∈ members.keys
  · exact .inl (if_pos hm)
  · exact .inr ⟨hm, if_neg hm⟩

theorem grows_opened (step : Step) (x : Json) : Grows step x (x.opened step) := by
  cases x with
  | null =>
    cases step with
    | key name => exact .inl rfl
    | index i => exact addsNulls_refl _ []
  | array items => cases step <;> exact addsNulls_refl _ items
  | object members => cases step <;> exact .inl rfl
  | bool | number | string => cases step <;> rfl

theorem grows_put (hr : x.refuses step = false) (child : Json) : Grows step x (x.put step child) := by
  cases x with
  | null =>
    cases step with
    | key name => exact addsKey_insert (.key name) [] child
    | index i => exact addsNulls_padded [] i child
  | array items =>
    cases step with
    | key name => cases hr
    | index i => exact addsNulls_padded items i child
  | object members => exact addsKey_insert step members child
  | bool | number | string => cases step <;> cases hr

/-- The first step of an assignment changes the container that it is applied to no more than needed. -/
theorem grows_assignAt (step : Step) (rest : Path) (x v : Json) :
    Grows step x (assignAt (step :: rest) x v).value := by
  cases hr : x.refuses step with
  | true =>
    rw [assignAt_of_refuses _ _ _ _ hr]
    exact grows_opened step x
  | false =>
    rw [assignAt_of_not_refuses _ _ _ _ hr]
    exact grows_put hr _

end Frame

/-- **An assignment changes nothing off its path and little on it.** Whether or not it takes effect:
what a path leads to that leaves the assignment's path is the same as before. A value that the path
goes through stays of its kind, unless it is null; an object keeps its keys in their order and gets
at most one more at the end; a list keeps its length or grows, by nulls and the item on the path. -/
theorem assign_frame (x : Json) (path : Path) (v : Json) :
    (∀ other u, x.Parts other path → x.get? other = some u →
      (x.assign path v).get? other = some u) ∧
    ∀ before step rest found, path = before ++ step :: rest → x.get? before = some found →
      ∃ found', (x.assign path v).get? before = some found' ∧ Grows step found found' := by
  cases path with
  | nil =>
    refine ⟨fun other u hp => (by cases hp), fun before step rest found he => ?_⟩
    simp at he
  | cons first path =>
    refine ⟨fun other u hp hu => get?_assignAt_of_parts hp hu, ?_⟩
    intro before step rest found he hf
    refine ⟨_, ?_, grows_assignAt step rest found v⟩
    change (assignAt (first :: path) x v).value.get? before = _
    rw [he]
    exact get?_assignAt_append hf (step :: rest) v

/-- A path that spells an index as a key stays on a path with that index, and leaves it below. The
assignment is dropped, after it made an item and a list in it. -/
theorem assign_frame_spelled :
    let x : Json := .object [("0", .array [.bool true]), ("b", .null)]
    let path : Path := [.index 0, .index 2, .index 5000]
    let other : Path := [.key "0", .index 0]
    x.Parts other path ∧ (assignAt path x .null).applied = false ∧
    (x.assign path .null).get? other = some (.bool true) ∧
    ∃ found', (x.assign path .null).get? [.key "0"] = some found' ∧
      Grows (.index 2) (.array [.bool true]) found' := by
  intro x path other
  have hc : x.child? (.key "0") = some (.array [.bool true]) := rfl
  have hp : x.Parts other path := .inside rfl hc (.here (by decide))
  have hframe := assign_frame x path .null
  have hsame : (x.assign path .null).get? [.key "0"] = (x.assign path .null).get? [.index 0] := rfl
  refine ⟨hp, rfl, hframe.1 _ _ hp rfl, ?_⟩
  rw [hsame]
  exact hframe.2 [.index 0] (.index 2) [.index 5000] _ rfl rfl

end MockGraph.Json
