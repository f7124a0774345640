import MockGraph.Proofs.Introspection.Printing

/-!
# `Proofs/Introspection/Quoting`: quoted texts in the lexical grammar

Descriptions and reasons are quoted by one language's rules and read by those of another. This
module writes down the second set of rules, the productions for strings of the October 2021 lexical
grammar, and compares. The grammar is about UTF-16 code units: a character above the first plane is
two source characters, and an escape stands for one unit. Nothing is lost by counting in units
(`units_injective`).

A text that begins like a string has at most one reading as a string (`StringToken.unique`). For a
quoted text it is the text itself (`quote_isStringToken`). The main statement, `quote_read_back`,
says so for the places where the printer quotes, next to what the lexer does there.
-/

set_option autoImplicit false

namespace MockGraph.Introspection

open Syntax

/-! ## 1. Code units -/

/-- The UTF-16 code units of a character. -/
def codeUnits (c : Char) : List Nat :=
  if c.toNat < 0x10000 then [c.toNat]
  else [0xD800 + (c.toNat - 0x10000) / 0x400, 0xDC00 + (c.toNat - 0x10000) % 0x400]

def units (cs : List Char) : List Nat := cs.flatMap codeUnits

@[simp] theorem units_cons (c : Char) (cs : List Char) : units (c :: cs) = codeUnits c ++ units cs :=
  rfl

@[simp] theorem units_append (cs ds : List Char) : units (cs ++ ds) = units cs ++ units ds :=
  List.flatMap_append

theorem codeUnits_ne_nil (c : Char) : codeUnits c ≠ [] := by
  unfold codeUnits
  split <;> simp

/-- A surrogate is no character, so what the units of a text begin with tells the first character. -/
theorem codeUnits_append_inj {c d : Char} {us vs : List Nat}
    (h : codeUnits c ++ us = codeUnits d ++ vs) : c = d ∧ us = vs := by
  have hc : c.toNat.isValidChar := c.valid
  have hd : d.toNat.isValidChar := d.valid
  unfold codeUnits at h
  unfold Nat.isValidChar at hc hd
  suffices heq : c.toNat = d.toNat ∧ us = vs from ⟨Char.toNat_inj.mp heq.1, heq.2⟩
  split at h <;> split at h <;> simp only [List.cons_append, List.nil_append, List.cons.injEq] at h
  · exact h
  · omega
  · omega
  · exact ⟨by omega, h.2.2⟩

/-- A text is determined by its code units. -/
theorem units_injective : Function.Injective units := by
  intro cs
  induction cs with
  | nil =>
    intro ds h
    cases ds with
    | nil => rfl
    | cons d ds => simp [units, codeUnits_ne_nil] at h
  | cons c cs ih =>
    intro ds h
    cases ds with
    | nil => simp [units, codeUnits_ne_nil] at h
    | cons d ds =>
      obtain ⟨rfl, hrest⟩ := codeUnits_append_inj h
      rw [ih hrest]

/-! ## 2. The grammar of strings -/

/-- `SourceCharacter`. -/
def IsSourceCharacter (u : Nat) : Prop := u = 9 ∨ u = 10 ∨ u = 13 ∨ (32 ≤ u ∧ u ≤ 0xFFFF)

def hexDigitValue? (u : Nat) : Option Nat :=
  if 48 ≤ u ∧ u ≤ 57 then some (u - 48)
  else if 65 ≤ u ∧ u ≤ 70 then some (u - 55)
  else if 97 ≤ u ∧ u ≤ 102 then some (u - 87)
  else none

/-- `EscapedCharacter`, each with what it stands for: `" \ / b f n r t`. -/
def escapedCharacters : List (Nat × Nat) :=
  [(34, 34), (92, 92), (47, 47), (98, 8), (102, 12), (110, 10), (114, 13), (116, 9)]

/-- `StringCharacter`: a source character, four digits after `\u`, or an escaped character after a
backslash. -/
inductive StringCharacter : List Nat → Nat → Prop where
  | plain {u : Nat} (hs : IsSourceCharacter u) (h : u ∉ [34, 92, 10, 13]) : StringCharacter [u] u
  | unicode {a b c d w x y z : Nat} (ha : hexDigitValue? a = some w) (hb : hexDigitValue? b = some x)
      (hc : hexDigitValue? c = some y) (hd : hexDigitValue? d = some z) :
      StringCharacter [92, 117, a, b, c, d] (0x1000 * w + 0x100 * x + 0x10 * y + z)
  | escaped {u value : Nat} (h : (u, value) ∈ escapedCharacters) : StringCharacter [92, u] value

/-- String characters after each other, with their values. -/
inductive Spells : List Nat → List Nat → Prop where
  | nil : Spells [] []
  | cons {part parts values : List Nat} {value : Nat} (h : StringCharacter part value)
      (hs : Spells parts values) : Spells (part ++ parts) (value :: values)

/-- `StringValue` between single quote marks, and what follows it. Two quote marks are the empty
string if no third one follows. -/
inductive StringToken : List Nat → List Nat → List Nat → Prop where
  | empty {rest : List Nat} (h : rest.head? ≠ some 34) : StringToken (34 :: 34 :: rest) [] rest
  | filled {parts values rest : List Nat} (hs : Spells parts values) (hne : values ≠ []) :
      StringToken (34 :: (parts ++ 34 :: rest)) values rest

/-- What a block string begins with. -/
def OpensBlockString (source : List Nat) : Prop := [34, 34, 34] <+: source

/-! ## 3. One reading at most -/

theorem StringCharacter.head {part : List Nat} {value : Nat} (h : StringCharacter part value) :
    ∃ u rest, part = u :: rest ∧ u ≠ 34 := by
  cases h with
  | plain _ h => exact ⟨_, _, rfl, fun hq => h (by simp [hq])⟩
  | unicode | escaped => exact ⟨_, _, rfl, by decide⟩

theorem ne_of_escaped {u value : Nat} (h : (u, value) ∈ escapedCharacters) : u ≠ 117 := by
  have hall : ∀ e ∈ escapedCharacters, e.1 ≠ 117 := by decide
  exact hall _ h

theorem escaped_unique {u value value' : Nat} (h : (u, value) ∈ escapedCharacters)
    (h' : (u, value') ∈ escapedCharacters) : value = value' := by
  have hall : ∀ e ∈ escapedCharacters, ∀ e' ∈ escapedCharacters, e.1 = e'.1 → e.2 = e'.2 := by
    decide
  exact hall _ h _ h' rfl

theorem StringCharacter.unique {part part' rest rest' : List Nat} {value value' : Nat}
    (h : StringCharacter part value) (h' : StringCharacter part' value')
    (heq : part ++ rest = part' ++ rest') : value = value' ∧ rest = rest' := by
  -- A plain character is no backslash, and the letter after a backslash tells the kind of escape.
  cases h with
  | plain _ hu =>
    cases h' with
    | plain => simpa using heq
    | unicode | escaped =>
      obtain rfl := (List.cons.inj heq).1
      exact absurd (by decide) hu
  | unicode ha hb hc hd =>
    cases h' with
    | plain _ hu =>
      obtain rfl := (List.cons.inj heq).1
      exact absurd (by decide) hu
    | unicode ha' hb' hc' hd' =>
      injections
      subst_vars
      simp_all
    | escaped h' =>
      obtain rfl := (List.cons.inj (List.cons.inj heq).2).1
      exact absurd rfl (ne_of_escaped h')
  | escaped h =>
    cases h' with
    | plain _ hu =>
      obtain rfl := (List.cons.inj heq).1
      exact absurd (by decide) hu
    | unicode =>
      obtain rfl := (List.cons.inj (List.cons.inj heq).2).1
      exact absurd rfl (ne_of_escaped h)
    | escaped h' =>
      obtain ⟨rfl, rfl⟩ := List.cons.inj (List.cons.inj heq).2
      exact ⟨escaped_unique h h', rfl⟩

theorem Spells.append {parts parts' values values' : List Nat} (h : Spells parts values)
    (h' : Spells parts' values') : Spells (parts ++ parts') (values ++ values') := by
  induction h with
  | nil => exact h'
  | cons h hs ih =>
    rw [List.append_assoc, List.cons_append]
    exact .cons h ih

theorem Spells.unique {parts parts' values values' rest rest' : List Nat} (h : Spells parts values)
    (h' : Spells parts' values') (heq : parts ++ 34 :: rest = parts' ++ 34 :: rest') :
    values = values' ∧ rest = rest' := by
  induction h generalizing parts' values' with
  | nil =>
    cases h' with
    | nil => simpa using heq
    | cons h hs =>
      obtain ⟨u, us, rfl, hu⟩ := h.head
      simp_all
  | cons h hs ih =>
    cases h' with
    | nil =>
      obtain ⟨u, us, rfl, hu⟩ := h.head
      simp_all
    | cons h' hs' =>
      rw [List.append_assoc, List.append_assoc] at heq
      obtain ⟨rfl, hparts⟩ := h.unique h' heq
      obtain ⟨rfl, hrest⟩ := ih hs' hparts
      exact ⟨rfl, hrest⟩

theorem Spells.head {parts values : List Nat} (h : Spells parts values) (hne : values ≠ []) :
    ∃ u rest, parts = u :: rest ∧ u ≠ 34 := by
  cases h with
  | nil => exact absurd rfl hne
  | cons h hs =>
    obtain ⟨u, rest, rfl, hu⟩ := h.head
    exact ⟨u, _, rfl, hu⟩

/-- A text has one reading as a string at most. -/
theorem StringToken.unique {source value value' rest rest' : List Nat}
    (h : StringToken source value rest) (h' : StringToken source value' rest') :
    value = value' ∧ rest = rest' := by
  generalize hs : source = other at h'
  cases h with
  | empty =>
    cases h' with
    | empty =>
      obtain ⟨-, hrest⟩ := List.cons.inj (List.cons.inj hs).2
      exact ⟨rfl, hrest⟩
    | filled hspells hne =>
      obtain ⟨u, us, rfl, hu⟩ := hspells.head hne
      obtain ⟨rfl, -⟩ := List.cons.inj (List.cons.inj hs).2
      exact absurd rfl hu
  | filled hspells hne =>
    cases h' with
    | empty =>
      obtain ⟨u, us, rfl, hu⟩ := hspells.head hne
      obtain ⟨rfl, -⟩ := List.cons.inj (List.cons.inj hs).2
      exact absurd rfl hu
    | filled hspells' => exact hspells.unique hspells' (List.cons.inj hs).2

theorem StringToken.not_opensBlockString {source value rest : List Nat}
    (h : StringToken source value rest) : ¬ OpensBlockString source := by
  rintro ⟨tail, htail⟩
  cases h with
  | empty h =>
    obtain rfl := (List.cons.inj (List.cons.inj htail).2).2
    exact h rfl
  | filled hspells hne =>
    obtain ⟨u, us, rfl, hu⟩ := hspells.head hne
    exact hu (List.cons.inj (List.cons.inj htail).2).1.symm

/-! ## 4. Quoted texts -/

theorem Spells.single {part : List Nat} {value : Nat} (h : StringCharacter part value) :
    Spells part [value] := by
  have hs := Spells.cons h .nil
  rwa [List.append_nil] at hs

theorem hexDigitValue?_hexDigit {n : Nat} (h : n < 16) :
    ∃ u, codeUnits (Text.hexDigit n) = [u] ∧ hexDigitValue? u = some n := by
  have hall : ∀ n < 16, codeUnits (Text.hexDigit n) = [(Text.hexDigit n).toNat] ∧
      hexDigitValue? (Text.hexDigit n).toNat = some n := by decide
  exact ⟨_, hall n h⟩

/-- A character that needs no escape stands for itself, in one unit or in two. -/
theorem spells_plain {c : Char} (hge : 32 ≤ c.toNat) (hquote : c ≠ '"') (hslash : c ≠ '\\') :
    Spells (codeUnits c) (codeUnits c) := by
  have hvalid : c.toNat.isValidChar := c.valid
  have hplain : ∀ u, 32 ≤ u → u ≤ 0xFFFF → u ≠ 34 → u ≠ 92 → StringCharacter [u] u := by
    intro u hlow hhigh hq hb
    refine .plain (.inr (.inr (.inr ⟨hlow, hhigh⟩))) ?_
    simp only [List.mem_cons, List.not_mem_nil, or_false, not_or]
    exact ⟨hq, hb, by omega, by omega⟩
  unfold codeUnits
  split
  · next hlt =>
    have hq : c.toNat ≠ 34 := fun h => hquote (Char.toNat_inj.mp h)
    have hb : c.toNat ≠ 92 := fun h => hslash (Char.toNat_inj.mp h)
    exact .single (hplain _ hge (by omega) hq hb)
  · next hge =>
    have hmax : c.toNat < 0x110000 := by
      unfold Nat.isValidChar at hvalid
      omega
    have hlead := hplain (0xD800 + (c.toNat - 0x10000) / 0x400) (by omega) (by omega) (by omega)
      (by omega)
    have htrail := hplain (0xDC00 + (c.toNat - 0x10000) % 0x400) (by omega) (by omega) (by omega)
      (by omega)
    exact .cons hlead (.single htrail)

theorem spells_code {c : Char} (h : c.toNat < 32) :
    Spells (units ['\\', 'u', '0', '0', Text.hexDigit (c.toNat / 16),
      Text.hexDigit (c.toNat % 16)]) (codeUnits c) := by
  obtain ⟨high, hhigh, hhighValue⟩ := @hexDigitValue?_hexDigit (c.toNat / 16) (by omega)
  obtain ⟨low, hlow, hlowValue⟩ := @hexDigitValue?_hexDigit (c.toNat % 16) (by omega)
  have hcode : StringCharacter [92, 117, 48, 48, high, low]
      (0x1000 * 0 + 0x100 * 0 + 0x10 * (c.toNat / 16) + c.toNat % 16) :=
    .unicode rfl rfl hhighValue hlowValue
  have hvalue : 0x1000 * 0 + 0x100 * 0 + 0x10 * (c.toNat / 16) + c.toNat % 16 = c.toNat := by
    omega
  have hunits : codeUnits c = [c.toNat] := if_pos (by omega)
  have hsource : units ['\\', 'u', '0', '0', Text.hexDigit (c.toNat / 16),
      Text.hexDigit (c.toNat % 16)] = [92, 117, 48, 48, high, low] := by
    simp only [units_cons, hhigh, hlow]
    rfl
  rw [hsource, hunits, ← hvalue]
  exact .single hcode

/-- What the printer writes for a character is a spelling of it. -/
theorem spells_escape (c : Char) : Spells (units (Text.escape c)) (codeUnits c) := by
  unfold Text.escape
  split
  case h_8 hquote hslash _ _ _ _ _ =>
    split
    · next hlt => exact spells_code hlt
    · next hge =>
      have hplain : Spells (codeUnits c) (codeUnits c) :=
        spells_plain (Nat.le_of_not_lt hge) (fun h => hquote h) (fun h => hslash h)
      rwa [units_cons, units, List.flatMap_nil, List.append_nil]
  all_goals exact .single (.escaped (by decide))

theorem spells_escapes (cs : List Char) : Spells (units (cs.flatMap Text.escape)) (units cs) := by
  induction cs with
  | nil => exact .nil
  | cons c cs ih =>
    rw [List.flatMap_cons, units_append, units_cons]
    exact (spells_escape c).append ih

/-- A quoted text is a string with the text as its value, unless a quote mark follows. -/
theorem quote_isStringToken (text : String) {rest : List Nat} (h : rest.head? ≠ some 34) :
    StringToken (units (Text.quote text).toList ++ rest) (units text.toList) rest := by
  have hsource : units (Text.quote text).toList ++ rest =
      34 :: (units (text.toList.flatMap Text.escape) ++ 34 :: rest) := by
    rw [Text.quote, String.toList_ofList, units_append, units_cons, List.append_assoc]
    rfl
  rw [hsource]
  cases hl : text.toList with
  | nil => exact .empty h
  | cons c cs =>
    refine .filled (spells_escapes _) ?_
    rw [units_cons]
    simp [codeUnits_ne_nil]

/-! ## 5. Control characters -/

theorem blank_le_of_mem_escape {c d : Char} (h : d ∈ Text.escape c) : ' ' ≤ d := by
  have hdigit : ∀ n < 16, ' ' ≤ Text.hexDigit n := by decide
  unfold Text.escape at h
  split at h
  case h_8 =>
    split at h
    · next hlt =>
      have hsmall : c.toNat < 32 := hlt
      simp only [List.mem_cons, List.not_mem_nil, or_false] at h
      obtain rfl | rfl | rfl | rfl | rfl | rfl := h
      · decide
      · decide
      · decide
      · decide
      · exact hdigit _ (by omega)
      · exact hdigit _ (by omega)
    · next hge =>
      rw [List.mem_singleton.mp h]
      exact Nat.le_of_not_lt hge
  all_goals
    simp only [List.mem_cons, List.not_mem_nil, or_false] at h
    obtain rfl | rfl := h <;> decide

theorem blank_le_of_mem_quote {text : String} {c : Char} (h : c ∈ (Text.quote text).toList) :
    ' ' ≤ c := by
  rw [Text.quote, String.toList_ofList] at h
  simp only [List.mem_append, List.mem_cons, List.mem_flatMap, List.not_mem_nil, or_false] at h
  obtain (rfl | ⟨d, -, hc⟩) | rfl := h
  · decide
  · exact blank_le_of_mem_escape hc
  · decide

/-! ## 6. Where the printer quotes -/

theorem closed_blanks {indent : String} (h : ∀ c ∈ indent.toList, isIgnored c = true) :
    Closed indent [] := by
  intro before rest
  induction hl : indent.toList generalizing indent with
  | nil => rfl
  | cons c cs ih =>
    rw [hl, List.forall_mem_cons] at h
    have hstep : Lexer.step ⟨before, .between⟩ c = .ok ⟨before, .between⟩ := by
      simp [Lexer.step, Lexer.start, h.1]
    rw [List.cons_append, foldlM_step_cons hstep]
    exact @ih (String.ofList cs) (by simpa using h.2) String.toList_ofList

/-- A quoted text in front of a line end or a closing parenthesis. It holds no raw control
character. By the lexical grammar exactly one string starts there, which is no block string, and its
value is the text. The lexer reads the same: on a line of its own and as a reason, whatever stands
before and after, the text is one token and nothing else changes. -/
theorem quote_read_back (text : String) :
    (∀ c ∈ (Text.quote text).toList, ' ' ≤ c) ∧
    (∀ follower ∈ ['\n', ')'], ∀ rest : List Char,
      let source := units ((Text.quote text).toList ++ follower :: rest)
      ¬ OpensBlockString source ∧
        ∀ value after, StringToken source value after ↔
          value = units text.toList ∧ after = units (follower :: rest)) ∧
    (∀ indent : String, (∀ c ∈ indent.toList, isIgnored c = true) →
      Closed (indent ++ Text.quote text ++ "\n") [.string text] ∧
        (text ≠ "" → descriptionLine indent (some text) = indent ++ Text.quote text ++ "\n")) ∧
    Closed ("reason: " ++ Text.quote text ++ ")")
        [.name "reason", .punct .colon, .string text, .punct .closeParen] ∧
      deprecation true (some text) =
        " @deprecated(" ++ ("reason: " ++ Text.quote text ++ ")") := by
  refine ⟨fun c hc => blank_le_of_mem_quote hc, ?_, ?_, ?_, ?_⟩
  · intro follower hfollower rest source
    have hhead : (units (follower :: rest)).head? ≠ some 34 := by
      simp only [List.mem_cons, List.not_mem_nil, or_false] at hfollower
      obtain rfl | rfl := hfollower
      · exact fun h => absurd (Option.some.inj h) (by decide)
      · exact fun h => absurd (Option.some.inj h) (by decide)
    have htoken : StringToken source (units text.toList) (units (follower :: rest)) := by
      have hquote := quote_isStringToken text hhead
      rwa [← units_append] at hquote
    refine ⟨htoken.not_opensBlockString, fun value after => ⟨?_, ?_⟩⟩
    · exact fun h => h.unique htoken
    · rintro ⟨rfl, rfl⟩
      exact htoken
  · intro indent hindent
    have hline := (closed_blanks hindent).append_pending (pending_quote text)
    refine ⟨hline.append_closed closed_newline delimited_newline, fun h => ?_⟩
    exact descriptionLine_of_ne h indent
  · have hopen : Closed "reason: " [.name "reason", .punct .colon] := fun _ _ => rfl
    have hclose : Closed ")" [.punct .closeParen] := fun _ _ => rfl
    exact (hopen.append_pending (pending_quote text)).append_closed hclose ⟨_, _, rfl, rfl⟩
  · have hmark : " @deprecated(" ++ "reason: " = " @deprecated(reason: " := by decide
    rw [← String.append_assoc, ← String.append_assoc, hmark]
    exact rfl

/-- Three quote marks, a backslash, control characters, a line end and a surrogate pair. -/
def awkwardText : String := "\"\"\"\\\x00\x1f\n\r\t😀"

theorem quote_read_back_awkward :
    StringToken (units ((Text.quote awkwardText).toList ++ [')', '"']))
        [34, 34, 34, 92, 0, 31, 10, 13, 9, 0xD83D, 0xDE00] [41, 34] ∧
      Closed ("  " ++ Text.quote awkwardText ++ "\n") [.string awkwardText] := by
  obtain ⟨-, hgrammar, hline, -⟩ := quote_read_back awkwardText
  have hindent : ∀ c ∈ "  ".toList, isIgnored c = true := by
    intro c hc
    rw [List.eq_of_mem_replicate (show c ∈ List.replicate 2 ' ' from hc)]
    rfl
  constructor
  · exact ((hgrammar ')' (by decide) ['"']).2 _ _).mpr ⟨by decide, by decide⟩
  · exact (hline "  " hindent).1

end MockGraph.Introspection
