import MockGraph.Json.Basic
import Mathlib.Data.List.Induction
import Mathlib.Data.List.Basic

/-!
# `Proofs/Json/Merge`: objects as ordered maps

An object whose keys differ is known by its keys and by what it holds under each of them
(`filterMap_keys`, `eq_of_keys_of_get?`). A merge leaves the keys of the first object in place,
appends the new ones in the order in which they come first, and under every key holds the value that
comes last. So a list of entries that is merged into nothing becomes `lastWins`, and merging is the
same whether the entries are merged into each other before or not (`merge_lastWins`). An object
without repeated keys is laid over another one (`merge_eq_under`).

On objects whose keys differ, merging is therefore an idempotent monoid with the empty object as its
unit, and an object acts on others as any list of entries does that collapses to it
(`merge_ordered`). The laws hold for the members in their order, not only for the look-ups.
-/

set_option autoImplicit false

namespace MockGraph.Json.Object

/-! ## 1. Keys and values -/

theorem mem_keys_iff (o : Object) (key : String) : key ∈ o.keys ↔ (o.get? key).isSome := by
  simp [keys, get?]

theorem get?_eq_none_iff (o : Object) (key : String) : o.get? key = none ↔ key ∉ o.keys := by
  rw [mem_keys_iff]
  simp

@[simp] theorem keys_append (o other : Object) : (o ++ other).keys = o.keys ++ other.keys :=
  List.map_append

theorem get?_append (o other : Object) (key : String) :
    get? (o ++ other) key = (o.get? key).or (other.get? key) := by
  simp only [get?, List.find?_append]
  cases List.find? (fun member => member.1 = key) o <;> rfl

theorem nodup_insert {o : Object} (h : o.keys.Nodup) (key : String) (value : Json) :
    (o.insert key value).keys.Nodup := by
  rw [keys_insert]
  split
  · exact h
  · next hk => exact List.nodup_append.mpr ⟨h, by simp, by rintro a ha b hb rfl; simp_all⟩

/-- An object whose keys differ is known by its keys and by what it holds under each of them. -/
theorem filterMap_keys {o : Object} (h : o.keys.Nodup) :
    (o.keys.filterMap fun key => (o.get? key).map (key, ·)) = o := by
  induction o with
  | nil => rfl
  | cons member rest ih =>
    obtain ⟨key, value⟩ := member
    obtain ⟨hnot, hrest⟩ := List.nodup_cons.mp h
    have hself : get? ((key, value) :: rest) key = some value := by simp [get?]
    have hother : ∀ other ∈ keys rest, get? ((key, value) :: rest) other = get? rest other := by
      intro other hm
      have hne : key ≠ other := by
        rintro rfl
        exact hnot hm
      simp [get?, hne]
    have htail : ((keys rest).filterMap fun other =>
        (get? ((key, value) :: rest) other).map (other, ·)) = rest := by
      rw [List.filterMap_congr fun other hm => by rw [hother other hm]]
      exact ih hrest
    change (key :: keys rest).filterMap _ = _
    rw [List.filterMap_cons, hself, htail]
    rfl

/-- Two objects with the same keys in the same order and the same values under them are equal. -/
theorem eq_of_keys_of_get? {o other : Object} (h : o.keys.Nodup) (hkeys : other.keys = o.keys)
    (hvalues : ∀ key, other.get? key = o.get? key) : other = o := by
  have hother : other.keys.Nodup := by rwa [hkeys]
  rw [← filterMap_keys hother, ← filterMap_keys h, hkeys]
  simp only [hvalues]

/-! ## 2. Merges -/

theorem merge_append (o entries rest : Object) :
    o.merge (entries ++ rest) = (o.merge entries).merge rest := List.foldl_append

@[simp] theorem nodup_keys_nil : (keys []).Nodup := List.nodup_nil

theorem nodup_merge {o : Object} (h : o.keys.Nodup) (other : Object) :
    (o.merge other).keys.Nodup := by
  induction other generalizing o with
  | nil => exact h
  | cons member rest ih => exact ih (nodup_insert h member.1 member.2)

/-- A merge holds under a key what comes last there. -/
theorem get?_merge_reverse (o entries : Object) (key : String) :
    (o.merge entries).get? key = (get? entries.reverse key).or (o.get? key) := by
  induction entries generalizing o with
  | nil => rfl
  | cons member rest ih =>
    obtain ⟨k, value⟩ := member
    rw [merge_cons, ih, List.reverse_cons, get?_append]
    by_cases hk : k = key
    · subst hk
      rw [get?_insert_self]
      cases get? rest.reverse k <;> simp [get?]
    · rw [get?_insert_of_ne _ _ (Ne.symm hk)]
      cases get? rest.reverse key <;> simp [get?, hk]

theorem get?_reverse {o : Object} (h : o.keys.Nodup) (key : String) :
    get? o.reverse key = o.get? key := by
  induction o with
  | nil => rfl
  | cons member rest ih =>
    obtain ⟨k, value⟩ := member
    obtain ⟨hk, hrest⟩ := List.nodup_cons.mp h
    rw [List.reverse_cons, get?_append, ih hrest]
    by_cases hkey : k = key
    · subst hkey
      rw [(get?_eq_none_iff rest k).mpr hk]
      simp [get?]
    · have hone : get? [(k, value)] key = none := by simp [get?, hkey]
      have hcons : get? ((k, value) :: rest) key = get? rest key := by simp [get?, hkey]
      rw [hone, hcons, Option.or_none]

/-- What a merge holds under a key is what the second object holds there, if it does. -/
theorem get?_merge (o : Object) {other : Object} (h : other.keys.Nodup) (key : String) :
    (o.merge other).get? key = (other.get? key).or (o.get? key) := by
  rw [get?_merge_reverse, get?_reverse h]

/-- A merge leaves the keys of the first object where they are and appends those that are new. -/
theorem keys_merge (o : Object) {other : Object} (h : other.keys.Nodup) :
    (o.merge other).keys = o.keys ++ other.keys.filter (· ∉ o.keys) := by
  induction other generalizing o with
  | nil => simp [keys]
  | cons member rest ih =>
    obtain ⟨key, value⟩ := member
    obtain ⟨hnot, hrest⟩ := List.nodup_cons.mp h
    have hkeys : keys ((key, value) :: rest) = key :: keys rest := rfl
    rw [merge_cons, ih _ hrest, keys_insert, hkeys]
    by_cases hk : key ∈ o.keys
    · rw [if_pos hk, List.filter_cons_of_neg (by simpa using hk)]
    · rw [if_neg hk, List.filter_cons_of_pos (by simpa using hk), List.append_assoc]
      refine congrArg (o.keys ++ key :: ·) (List.filter_congr fun other hm => ?_)
      have hne : other ≠ key := by
        rintro rfl
        exact hnot hm
      simp [hne]

/-- The keys of entries that are merged into nothing, in the order in which they come first. -/
theorem keys_merge_nil (entries : Object) :
    (merge [] entries).keys = entries.keys.eraseDups := by
  induction entries using List.reverseRecOn with
  | nil => rfl
  | append_singleton entries member ih =>
    have hlast : keys [member] = [member.1] := rfl
    rw [merge_append, keys_append, hlast, List.eraseDups_append, ← ih]
    change (insert (merge [] entries) member.1 member.2).keys = _
    rw [keys_insert, ih]
    by_cases hm : member.1 ∈ keys entries
    · rw [if_pos (List.mem_eraseDups.mpr hm)]
      simp [List.removeAll, hm]
    · rw [if_neg (mt List.mem_eraseDups.mp hm)]
      simp [List.removeAll, hm, List.eraseDups_cons]

/-! ## 3. Entries that are merged before -/

theorem insert_insert_self (o : Object) (key : String) (value value' : Json) :
    (o.insert key value).insert key value' = o.insert key value' := by
  induction o with
  | nil => simp [insert]
  | cons member rest ih =>
    obtain ⟨k, v⟩ := member
    by_cases hk : k = key
    · simp [insert, hk]
    · simp [insert, hk, ih]

/-- The order of two insertions counts only if both append a key. -/
theorem insert_comm {o : Object} {key other : String} (value value' : Json) (hne : key ≠ other)
    (hm : key ∈ o.keys) :
    (o.insert other value').insert key value = (o.insert key value).insert other value' := by
  induction o with
  | nil => simp [keys] at hm
  | cons member rest ih =>
    obtain ⟨k, v⟩ := member
    by_cases hk : k = key
    · subst hk
      simp [insert, hne]
    · have hrest : key ∈ keys rest := by
        rcases List.mem_cons.mp hm with h | h
        · exact absurd h.symm hk
        · exact h
      by_cases ho : k = other
      · simp [insert, ho, hne.symm]
      · simp [insert, hk, ho, ih hrest]

theorem insert_merge {o other : Object} {key : String} (value : Json) (hm : key ∈ o.keys)
    (hn : key ∉ other.keys) :
    (o.merge other).insert key value = (o.insert key value).merge other := by
  induction other generalizing o with
  | nil => rfl
  | cons member rest ih =>
    obtain ⟨k, v⟩ := member
    have hne : key ≠ k := by
      rintro rfl
      exact hn List.mem_cons_self
    have hmem : key ∈ (o.insert k v).keys := by
      rw [keys_insert]
      split
      · exact hm
      · exact List.mem_append_left _ hm
    rw [merge_cons, merge_cons, ih hmem fun h => hn (List.mem_cons_of_mem _ h)]
    rw [insert_comm value v hne hm]

theorem merge_insert (o : Object) {other : Object} (h : other.keys.Nodup) (key : String)
    (value : Json) : o.merge (other.insert key value) = (o.merge other).insert key value := by
  induction other generalizing o with
  | nil => rfl
  | cons member rest ih =>
    obtain ⟨k, v⟩ := member
    obtain ⟨hnot, hrest⟩ := List.nodup_cons.mp h
    by_cases hk : k = key
    · subst hk
      have hmem : k ∈ (o.insert k v).keys := by
        rw [mem_keys_iff, get?_insert_self]
        rfl
      rw [merge_cons, insert_merge value hmem hnot, insert_insert_self]
      simp [insert]
    · rw [merge_cons, ← ih (o.insert k v) hrest]
      simp [insert, hk]

/-- Entries can be merged into each other before they are merged into an object. -/
theorem merge_merge_nil (o entries : Object) : o.merge (merge [] entries) = o.merge entries := by
  induction entries using List.reverseRecOn with
  | nil => rfl
  | append_singleton entries member ih =>
    have hnodup : (merge [] entries).keys.Nodup := nodup_merge nodup_keys_nil entries
    rw [merge_append, merge_append, ← ih]
    exact merge_insert o hnodup member.1 member.2

/-! ## 4. The last value of each key -/

/-- The object of a list of entries: the keys in the order in which they come first, and under each
of them the value that comes last. -/
def lastWins (entries : Object) : Object :=
  entries.keys.eraseDups.filterMap fun key => (get? entries.reverse key).map (key, ·)

theorem merge_nil_eq_lastWins (entries : Object) : merge [] entries = lastWins entries := by
  have hnodup : (merge [] entries).keys.Nodup := nodup_merge nodup_keys_nil entries
  have hvalue : ∀ key, (merge [] entries).get? key = get? entries.reverse key := by
    intro key
    rw [get?_merge_reverse]
    exact Option.or_none
  rw [← filterMap_keys hnodup, keys_merge_nil]
  simp only [hvalue]
  rfl

theorem merge_lastWins (o entries : Object) : o.merge (lastWins entries) = o.merge entries := by
  rw [← merge_nil_eq_lastWins, merge_merge_nil]

theorem keys_lastWins (entries : Object) : (lastWins entries).keys = entries.keys.eraseDups := by
  rw [← merge_nil_eq_lastWins, keys_merge_nil]

theorem get?_lastWins (entries : Object) (key : String) :
    (lastWins entries).get? key = get? entries.reverse key := by
  rw [← merge_nil_eq_lastWins, get?_merge_reverse]
  exact Option.or_none

/-! ## 5. An object under another -/

/-- An object with another one laid over it: the keys of the lower one stay where they are, new ones
follow in the order of the upper one, and under its keys the upper one decides. -/
def under (o upper : Object) : Object :=
  (o.keys ++ upper.keys.filter (· ∉ o.keys)).filterMap fun key =>
    ((upper.get? key).or (o.get? key)).map (key, ·)

theorem merge_eq_under {o upper : Object} (ho : o.keys.Nodup) (hu : upper.keys.Nodup) :
    o.merge upper = o.under upper := by
  rw [← filterMap_keys (nodup_merge ho upper), keys_merge o hu]
  simp only [get?_merge o hu]
  rfl

/-! ## 6. The monoid of objects whose keys differ -/

theorem get?_merge_eq_ite (o : Object) {other : Object} (h : other.keys.Nodup) (key : String) :
    (o.merge other).get? key = if key ∈ other.keys then other.get? key else o.get? key := by
  rw [get?_merge o h]
  split
  · next hm =>
    obtain ⟨value, hvalue⟩ := Option.isSome_iff_exists.mp ((mem_keys_iff other key).mp hm)
    rw [hvalue, Option.some_or]
  · next hm => rw [(get?_eq_none_iff other key).mpr hm, Option.none_or]

theorem nil_merge {o : Object} (h : o.keys.Nodup) : merge [] o = o := by
  refine eq_of_keys_of_get? h ?_ fun key => ?_
  · rw [keys_merge [] h]
    simp [keys]
  · rw [get?_merge [] h]
    exact Option.or_none

theorem merge_self {o : Object} (h : o.keys.Nodup) : o.merge o = o := by
  refine eq_of_keys_of_get? h ?_ fun key => ?_
  · rw [keys_merge o h]
    simp
  · rw [get?_merge o h, Option.or_self]

/-- Merges can be grouped at will. The middle object is its own collapse because its keys differ;
the other two may repeat theirs. -/
theorem merge_assoc (lower : Object) {o : Object} (h : o.keys.Nodup) (upper : Object) :
    (lower.merge o).merge upper = lower.merge (o.merge upper) :=
  calc (lower.merge o).merge upper
      = lower.merge (o ++ upper) := (merge_append lower o upper).symm
    _ = lower.merge (merge [] (o ++ upper)) := (merge_merge_nil lower _).symm
    _ = lower.merge ((merge [] o).merge upper) := by rw [merge_append]
    _ = lower.merge (o.merge upper) := by rw [nil_merge h]

/-- An object that was merged changes nothing if it is merged again. -/
theorem merge_merge_self (o : Object) {other : Object} (h : other.keys.Nodup) :
    (o.merge other).merge other = o.merge other := by
  rw [merge_assoc o h, merge_self h]

/-- Entries that collapse to an object are inserted one by one with the same result. -/
theorem merge_eq_foldl_insert (o : Object) {other entries : Object}
    (h : lastWins entries = other) :
    o.merge other = entries.foldl (fun acc entry => acc.insert entry.1 entry.2) o := by
  rw [← h, merge_lastWins]
  rfl

/-- **Merging is a monoid with the first place and the last value of each key.** Merging `b` into
`a`, both with keys that differ, gives an object with keys that differ: those of `a` in their order,
then those of `b` that `a` lacks, in the order of `b`. The keys of `b` hold what they hold in `b`, all
others what they hold in `a`. Merges can be grouped at will, the empty object is a unit on both
sides, a second merge of the same object changes nothing, and instead of `b` any list of entries can
be inserted that collapses to `b`. -/
theorem merge_ordered {a b : Object} (ha : a.keys.Nodup) (hb : b.keys.Nodup) :
    ((a.merge b).keys = a.keys ++ b.keys.filter (· ∉ a.keys) ∧ (a.merge b).keys.Nodup ∧
      ∀ key, (a.merge b).get? key = if key ∈ b.keys then b.get? key else a.get? key) ∧
    (∀ c : Object, (a.merge b).merge c = a.merge (b.merge c)) ∧
    (a.merge [] = a ∧ merge [] a = a) ∧
    (a.merge a = a ∧ (a.merge b).merge b = a.merge b) ∧
    ∀ entries : Object, lastWins entries = b →
      a.merge b = entries.foldl (fun acc entry => acc.insert entry.1 entry.2) a :=
  ⟨⟨keys_merge a hb, nodup_merge ha b, get?_merge_eq_ite a hb⟩, merge_assoc a hb,
    ⟨merge_nil a, nil_merge ha⟩, ⟨merge_self ha, merge_merge_self a hb⟩,
    fun _ => merge_eq_foldl_insert a⟩

/-- Every two of three objects have a key in common, and the entries for the second one repeat a key
with a value that is overwritten. -/
theorem merge_ordered_colliding :
    let a : Object := [("id", .ofInt 1), ("name", .string "x")]
    let b : Object := [("team", .null), ("id", .ofInt 2)]
    let c : Object := [("name", .bool true), ("size", .ofInt 3), ("team", .string "y")]
    let entries : Object := [("team", .bool false), ("id", .ofInt 2), ("team", .null)]
    a.keys.Nodup ∧ b.keys.Nodup ∧ lastWins entries = b ∧
    a.merge b = [("id", .ofInt 2), ("name", .string "x"), ("team", .null)] ∧
    ((a.merge b).keys = a.keys ++ b.keys.filter (· ∉ a.keys) ∧ (a.merge b).keys.Nodup ∧
      ∀ key, (a.merge b).get? key = if key ∈ b.keys then b.get? key else a.get? key) ∧
    (a.merge b).merge c = a.merge (b.merge c) ∧
    (a.merge [] = a ∧ merge [] a = a) ∧
    (a.merge a = a ∧ (a.merge b).merge b = a.merge b) ∧
    a.merge b = entries.foldl (fun acc entry => acc.insert entry.1 entry.2) a := by
  intro a b c entries
  have ha : a.keys.Nodup := by decide
  have hb : b.keys.Nodup := by decide
  have hentries : lastWins entries = b := by rfl
  obtain ⟨hmembers, hgroups, hunit, hagain, hinserted⟩ := merge_ordered ha hb
  exact ⟨ha, hb, hentries, rfl, hmembers, hgroups c, hunit, hagain, hinserted entries hentries⟩

end MockGraph.Json.Object
