import MockGraph.Json.Path
import MockGraph.Proofs.Text.Pieces
import Mathlib.Data.List.Induction
import Mathlib.Data.List.Basic

/-!
# `Proofs/Json/PathText`: paths and their text

A path is read from its text and written back. Reading loses what writing does not put back: empty
segments vanish, and a segment that spells an index of 64 bits becomes that index, whose plus and
whose zeros in front are not kept.

* `parse_render_iff`: a path can be read from its own text exactly if each of its keys is a segment
  that is read as a key. Every path that was read from a text is like that, so writing normalises.
* `assign_segment`: assigning to an object under a segment changes one entry, and that entry has the
  segment itself as its key, unless the segment spells an index with a plus or with zeros that the
  number can do without. Then the key is the plain spelling of the index.
-/

set_option autoImplicit false

namespace MockGraph

/-! ## 1. Decimal numbers -/

section Decimal

variable {c : Char} {digits : List Char}

theorem digitsValue_toDigits (n : Nat) : digitsValue (Nat.toDigits 10 n) = n := by
  have h := Nat.ofDigitChars_ten_toDigits (n := n)
  rwa [Nat.ofDigitChars_eq_foldl] at h

theorem digitsValue_append_one (digits : List Char) (c : Char) :
    digitsValue (digits ++ [c]) = 10 * digitsValue digits + (c.toNat - '0'.toNat) := by
  simp [digitsValue, List.foldl_append]

theorem digitsValue_zero_cons (digits : List Char) :
    digitsValue ('0' :: digits) = digitsValue digits := rfl

theorem digitChar_of_isDigit (hc : c.isDigit = true) :
    c.toNat - '0'.toNat < 10 ∧ Nat.digitChar (c.toNat - '0'.toNat) = c := by
  have hzero : '0'.toNat = 48 := rfl
  have hrange : 48 ≤ c.toNat ∧ c.toNat ≤ 57 := by
    simpa [Char.isDigit, UInt32.le_iff_toNat_le] using hc
  have hlt : c.toNat - '0'.toNat < 10 := by omega
  refine ⟨hlt, Char.toNat_inj.mp ?_⟩
  rw [Nat.toNat_digitChar_of_lt_ten hlt]
  omega

/-- Digits without a zero in front are the spelling of their value. -/
theorem toDigits_digitsValue (hd : ∀ c ∈ digits, c.isDigit = true) (hne : digits ≠ [])
    (hhead : digits.head? ≠ some '0') : Nat.toDigits 10 (digitsValue digits) = digits := by
  induction digits using List.reverseRecOn with
  | nil => exact absurd rfl hne
  | append_singleton front c ih =>
    obtain ⟨hlt, hchar⟩ := digitChar_of_isDigit (hd c (by simp))
    have hlast : Nat.toDigits 10 (c.toNat - '0'.toNat) = [c] := by
      rw [Nat.toDigits_of_lt_base hlt, hchar]
    rw [digitsValue_append_one]
    by_cases hfront : front = []
    · subst hfront
      rw [List.nil_append, ← hlast]
      simp [digitsValue]
    · have hhead' : front.head? ≠ some '0' := by
        rwa [List.head?_append_of_ne_nil _ hfront] at hhead
      have hspelled := ih (fun c hm => hd c (List.mem_append_left _ hm)) hfront hhead'
      have hpos : 0 < digitsValue front := by
        rcases Nat.eq_zero_or_pos (digitsValue front) with hzero | hpos
        · rw [hzero, Nat.toDigits_zero] at hspelled
          rw [← hspelled] at hhead'
          exact absurd rfl hhead'
        · exact hpos
      rw [← Nat.toDigits_append_toDigits (by decide) hpos hlt, hspelled, hlast]

/-- Digits without the zeros in front that their value can do without. -/
def withoutZeros : List Char → List Char
  | [] => ['0']
  | c :: rest => if c = '0' then withoutZeros rest else c :: rest

theorem withoutZeros_eq (hd : ∀ c ∈ digits, c.isDigit = true) :
    withoutZeros digits = Nat.toDigits 10 (digitsValue digits) := by
  induction digits with
  | nil => rfl
  | cons c rest ih =>
    unfold withoutZeros
    by_cases hc : c = '0'
    · subst hc
      rw [if_pos rfl, digitsValue_zero_cons]
      exact ih fun c hm => hd c (List.mem_cons_of_mem _ hm)
    · rw [if_neg hc]
      exact (toDigits_digitsValue hd (by simp) (by simpa using hc)).symm

theorem length_withoutZeros_le (hne : digits ≠ []) :
    (withoutZeros digits).length ≤ digits.length := by
  induction digits with
  | nil => exact absurd rfl hne
  | cons c rest ih =>
    unfold withoutZeros
    by_cases hc : c = '0'
    · rw [if_pos hc]
      cases rest with
      | nil => simp [withoutZeros]
      | cons next rest => exact Nat.le_succ_of_le (ih (by simp))
    · simp [hc]

end Decimal

/-! ## 2. Segments -/

/-- A text that spells an index: ASCII digits after an optional plus, with a value of 64 bits. -/
def SpellsIndex (text : String) : Prop :=
  ∃ digits, (text.toList = digits ∨ text.toList = '+' :: digits) ∧ digits ≠ [] ∧
    (∀ c ∈ digits, c.isDigit = true) ∧ digitsValue digits < UInt64.size

/-- A text without the plus in front. -/
def unsigned : List Char → List Char
  | '+' :: rest => rest
  | all => all

/-- A text that is longer than the number it spells: with a plus, or with a zero in front of other
digits. -/
def IsPadded (text : String) : Prop :=
  text.toList.head? = some '+' ∨ text.toList.head? = some '0' ∧ 1 < text.toList.length

section Segments

variable {digits : List Char} {text : String} {i : UInt64}

theorem readIndex?_eq (segment : List Char) :
    readIndex? segment =
      if unsigned segment ≠ [] ∧ (unsigned segment).all Char.isDigit ∧
          digitsValue (unsigned segment) < UInt64.size then
        some (UInt64.ofNat (digitsValue (unsigned segment)))
      else none := rfl

theorem unsigned_of_digits (hd : ∀ c ∈ digits, c.isDigit = true) : unsigned digits = digits := by
  unfold unsigned
  split
  · exact absurd (hd '+' List.mem_cons_self) (by decide)
  · rfl

theorem unsigned_cases (segment : List Char) :
    segment = unsigned segment ∨ segment = '+' :: unsigned segment := by
  unfold unsigned
  split
  · exact .inr rfl
  · exact .inl rfl

theorem unsigned_of_spelled (hd : ∀ c ∈ digits, c.isDigit = true)
    (h : text.toList = digits ∨ text.toList = '+' :: digits) : unsigned text.toList = digits := by
  rcases h with h | h
  · rw [h, unsigned_of_digits hd]
  · rw [h, unsigned]

theorem spellsIndex_iff :
    SpellsIndex text ↔ unsigned text.toList ≠ [] ∧ (unsigned text.toList).all Char.isDigit ∧
      digitsValue (unsigned text.toList) < UInt64.size := by
  constructor
  · rintro ⟨digits, hspelled, hne, hd, hlt⟩
    rw [unsigned_of_spelled hd hspelled]
    exact ⟨hne, List.all_eq_true.mpr hd, hlt⟩
  · rintro ⟨hne, hd, hlt⟩
    exact ⟨_, unsigned_cases text.toList, hne, List.all_eq_true.mp hd, hlt⟩

instance : Decidable (SpellsIndex text) := decidable_of_iff' _ spellsIndex_iff

theorem ofSegment_of_spells (h : SpellsIndex text) :
    Step.ofSegment text = .index (UInt64.ofNat (digitsValue (unsigned text.toList))) := by
  rw [Step.ofSegment, readIndex?_eq, if_pos (spellsIndex_iff.mp h)]

theorem ofSegment_of_not_spells (h : ¬ SpellsIndex text) : Step.ofSegment text = .key text := by
  rw [Step.ofSegment, readIndex?_eq, if_neg fun hs => h (spellsIndex_iff.mpr hs)]

theorem isDigit_of_mem_spelling {c : Char} (hc : c ∈ (Step.index i).spelling.toList) :
    c.isDigit = true := by
  rw [Step.spelling, String.toList_ofList] at hc
  exact Nat.isDigit_of_mem_toDigits (by decide) (by decide) hc

/-- An index is read from its spelling. -/
theorem ofSegment_spelling_index (i : UInt64) :
    Step.ofSegment (Step.index i).spelling = .index i := by
  have hunsigned : unsigned (Step.index i).spelling.toList = Nat.toDigits 10 i.toNat := by
    rw [unsigned_of_digits fun c => isDigit_of_mem_spelling, Step.spelling, String.toList_ofList]
  have hspells : SpellsIndex (Step.index i).spelling := by
    rw [spellsIndex_iff, hunsigned, digitsValue_toDigits]
    refine ⟨Nat.toDigits_ne_nil, List.all_eq_true.mpr fun c hc => ?_, i.toNat_lt⟩
    exact Nat.isDigit_of_mem_toDigits (by decide) (by decide) hc
  rw [ofSegment_of_spells hspells, hunsigned, digitsValue_toDigits, UInt64.ofNat_toNat]

end Segments

/-! ## 3. Round trips -/

/-- Every key of a path is a segment that is read as a key. -/
def Path.IsReadable (path : Path) : Prop :=
  ∀ name, .key name ∈ path → name ≠ "" ∧ '/' ∉ name.toList ∧ ¬ SpellsIndex name

section RoundTrips

variable {path : Path} {step : Step}

theorem toList_render (path : Path) :
    path.render.toList = (path.map fun step => step.spelling.toList).flatMap ('/' :: ·) := by
  rw [Path.render, String.toList_join]
  simp [List.flatMap_map, String.toList_append]

theorem parse_eq (text : String) :
    Path.parse text =
      ((Text.pieces '/' text.toList).filter (· ≠ [])).map fun piece =>
        Step.ofSegment (String.ofList piece) := by
  rw [Path.parse, Path.ofSegments, List.map_map]
  rfl

/-- The spelling of a step that a readable path may have is a segment, and is read as the step. -/
theorem spelling_of_readable (hp : path.IsReadable) (hs : step ∈ path) :
    step.spelling.toList ≠ [] ∧ '/' ∉ step.spelling.toList ∧
      Step.ofSegment step.spelling = step := by
  cases step with
  | key name =>
    obtain ⟨hne, hslash, hspells⟩ := hp name hs
    exact ⟨mt String.toList_eq_nil_iff.mp hne, hslash, ofSegment_of_not_spells hspells⟩
  | index i =>
    refine ⟨?_, fun hslash => ?_, ofSegment_spelling_index i⟩
    · rw [Step.spelling, String.toList_ofList]
      exact Nat.toDigits_ne_nil
    · exact absurd (isDigit_of_mem_spelling hslash) (by decide)

theorem parse_render_of_readable (hp : path.IsReadable) : Path.parse path.render = path := by
  have hpieces : Text.pieces '/' path.render.toList =
      [] :: path.map fun step => step.spelling.toList := by
    have hempty : '/' ∉ ([] : List Char) := List.not_mem_nil
    rw [toList_render]
    refine Text.pieces_joined hempty fun piece hm => ?_
    obtain ⟨step, hs, rfl⟩ := List.mem_map.mp hm
    exact (spelling_of_readable hp hs).2.1
  have hkept : ((path.map fun step => step.spelling.toList).filter (· ≠ [])) =
      path.map fun step => step.spelling.toList := by
    refine List.filter_eq_self.mpr fun piece hm => ?_
    obtain ⟨step, hs, rfl⟩ := List.mem_map.mp hm
    simpa using (spelling_of_readable hp hs).1
  have hread : ∀ step ∈ path, Step.ofSegment (String.ofList step.spelling.toList) = step := by
    intro step hs
    rw [String.ofList_toList]
    exact (spelling_of_readable hp hs).2.2
  rw [parse_eq, hpieces, List.filter_cons_of_neg (by simp), hkept, List.map_map]
  exact (List.map_congr_left hread).trans (List.map_id path)

/-- A key that was read from a text was a piece of it, and spells no index. -/
theorem isReadable_parse (text : String) : (Path.parse text).IsReadable := by
  intro name hname
  rw [parse_eq] at hname
  obtain ⟨piece, hm, hread⟩ := List.mem_map.mp hname
  obtain ⟨hpiece, hne⟩ := List.mem_filter.mp hm
  by_cases hspells : SpellsIndex (String.ofList piece)
  · rw [ofSegment_of_spells hspells] at hread
    cases hread
  · rw [ofSegment_of_not_spells hspells] at hread
    cases hread
    refine ⟨fun hempty => ?_, ?_, hspells⟩
    · rw [← String.toList_eq_nil_iff, String.toList_ofList] at hempty
      simp [hempty] at hne
    · rw [String.toList_ofList]
      exact Text.not_mem_of_mem_pieces hpiece

end RoundTrips

/-- **Paths come back from their text exactly where they can.** Those do whose keys are neither empty
nor cut by a slash nor read as an index. What was read from a text is such a path; so reading, writing
and reading again is reading, and writing again changes nothing. -/
theorem parse_render_iff :
    (∀ path : Path, Path.parse path.render = path ↔
      ∀ name, .key name ∈ path → name ≠ "" ∧ '/' ∉ name.toList ∧ ¬ SpellsIndex name) ∧
    ∀ text,
      (∀ name, .key name ∈ Path.parse text → name ≠ "" ∧ '/' ∉ name.toList ∧ ¬ SpellsIndex name) ∧
      Path.parse (Path.parse text).render = Path.parse text ∧
      (Path.parse (Path.parse text).render).render = (Path.parse text).render := by
  refine ⟨fun path => ⟨fun hback => ?_, parse_render_of_readable⟩, fun text => ?_⟩
  · have hreadable := isReadable_parse path.render
    rwa [hback] at hreadable
  · have hback := parse_render_of_readable (isReadable_parse text)
    exact ⟨isReadable_parse text, hback, congrArg Path.render hback⟩

/-! ## 4. Segments as keys -/

/-- The key that a segment addresses in an object. -/
def addressedKey (segment : String) : String :=
  if SpellsIndex segment then String.ofList (withoutZeros (unsigned segment.toList)) else segment

section Keys

variable {segment : String}

theorem spelling_ofSegment (segment : String) :
    (Step.ofSegment segment).spelling = addressedKey segment := by
  unfold addressedKey
  by_cases h : SpellsIndex segment
  · obtain ⟨-, hd, hlt⟩ := spellsIndex_iff.mp h
    rw [if_pos h, ofSegment_of_spells h, withoutZeros_eq (List.all_eq_true.mp hd), Step.spelling,
      UInt64.toNat_ofNat_of_lt' hlt]
  · rw [if_neg h, ofSegment_of_not_spells h, Step.spelling]

/-- What is padded gets shorter. -/
theorem length_addressedKey_lt (h : SpellsIndex segment) (hp : IsPadded segment) :
    (addressedKey segment).toList.length < segment.toList.length := by
  obtain ⟨hne, hd, -⟩ := spellsIndex_iff.mp h
  rw [addressedKey, if_pos h, String.toList_ofList]
  rcases unsigned_cases segment.toList with hplain | hplus
  · rw [← hplain] at hne hd ⊢
    cases hs : segment.toList with
    | nil => exact absurd hs hne
    | cons c rest =>
      rw [hs] at hd
      unfold IsPadded at hp
      rw [hs] at hp
      rcases hp with hplus | ⟨hzero, hlong⟩
      · cases hplus
        simp at hd
      · cases hzero
        have hrest : rest ≠ [] := by
          rintro rfl
          simp at hlong
        exact Nat.lt_succ_of_le (length_withoutZeros_le hrest)
  · have hlength := congrArg List.length hplus
    rw [List.length_cons] at hlength
    have hle := length_withoutZeros_le hne
    omega

theorem addressedKey_eq_iff : addressedKey segment = segment ↔
    ¬ (SpellsIndex segment ∧ IsPadded segment) := by
  constructor
  · rintro hsame ⟨hs, hp⟩
    have hlt := length_addressedKey_lt hs hp
    rw [hsame] at hlt
    exact Nat.lt_irrefl _ hlt
  · intro hnot
    unfold addressedKey
    by_cases hs : SpellsIndex segment
    · have hp : ¬ IsPadded segment := fun hp => hnot ⟨hs, hp⟩
      obtain ⟨hne, hd, -⟩ := spellsIndex_iff.mp hs
      have hplain : segment.toList = unsigned segment.toList := by
        rcases unsigned_cases segment.toList with hplain | hplus
        · exact hplain
        · exact absurd (.inl (by rw [hplus]; rfl)) hp
      rw [if_pos hs, ← hplain]
      rw [← String.toList_inj, String.toList_ofList]
      cases hl : segment.toList with
      | nil => exact absurd hl (hplain ▸ hne)
      | cons c rest =>
        unfold withoutZeros
        by_cases hc : c = '0'
        · subst hc
          cases rest with
          | nil => rfl
          | cons next rest => exact absurd (.inr (by simp [hl])) hp
        · rw [if_neg hc]
    · rw [if_neg hs]

theorem parse_segment (hne : segment ≠ "") (hs : '/' ∉ segment.toList) :
    Path.parse segment = [Step.ofSegment segment] := by
  have hkept : segment.toList ≠ [] := mt String.toList_eq_nil_iff.mp hne
  rw [parse_eq, Text.pieces_of_not_mem hs, List.filter_cons_of_pos (by simpa using hkept)]
  simp

end Keys

/-- **A segment addresses one entry of an object.** Its key is the segment, unless that is a padded
spelling of an index: then the key is the spelling of the same index without the plus and the zeros
in front. A new key comes last. -/
theorem assign_segment (o : Json.Object) {segment : String} (hne : segment ≠ "")
    (hs : '/' ∉ segment.toList) (v : Json) :
    (∃ after : Json.Object, (Json.object o).assign (Path.parse segment) v = .object after ∧
      after.get? (addressedKey segment) = some v ∧
      (∀ key, key ≠ addressedKey segment → after.get? key = o.get? key) ∧
      after.keys =
        if addressedKey segment ∈ o.keys then o.keys else o.keys ++ [addressedKey segment]) ∧
    (addressedKey segment = segment ↔ ¬ (SpellsIndex segment ∧ IsPadded segment)) := by
  refine ⟨⟨o.insert (addressedKey segment) v, ?_, ?_, fun key hkey => ?_, ?_⟩, addressedKey_eq_iff⟩
  · rw [parse_segment hne hs, ← spelling_ofSegment]
    rfl
  · exact Json.Object.get?_insert_self o _ v
  · exact Json.Object.get?_insert_of_ne o v hkey
  · exact Json.Object.keys_insert o _ v

/-- A plus and two zeros too many: the entry of the number is overwritten. -/
theorem assign_segment_seven :
    let o : Json.Object := [("7", .null), ("b", .null)]
    SpellsIndex "+007" ∧ IsPadded "+007" ∧
    ∃ after : Json.Object, (Json.object o).assign (Path.parse "+007") (.bool true) = .object after ∧
      after.get? "7" = some (.bool true) ∧ (∀ key, key ≠ "7" → after.get? key = o.get? key) ∧
      after.keys = ["7", "b"] := by
  intro o
  have hkey : addressedKey "+007" = "7" := by decide
  have hone := assign_segment o (show "+007" ≠ "" by decide) (by decide) (.bool true)
  rw [hkey] at hone
  exact ⟨by decide, .inl rfl, hone.1⟩

/-- Under a segment with zeros in front no object gets an entry. -/
theorem assign_segment_ne :
    (Json.object []).assign (Path.parse "007") (.bool true) = .object [("7", .bool true)] ∧
    ¬ ∃ after : Json.Object,
      (Json.object []).assign (Path.parse "007") (.bool true) = .object after ∧
      after.get? "007" = some (.bool true) := by
  have hleft : (Json.object []).assign (Path.parse "007") (.bool true) =
      .object [("7", .bool true)] := rfl
  refine ⟨hleft, ?_⟩
  rintro ⟨after, hafter, hentry⟩
  cases hleft.symm.trans hafter
  cases hentry

end MockGraph
