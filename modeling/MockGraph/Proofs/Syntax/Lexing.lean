import MockGraph.Syntax.Token

/-!
# `Proofs/Syntax/Lexing`: scanning a text in pieces

The lexer is a fold over characters, so a text that is put together from pieces can be scanned piece
by piece, if the pieces are cut between tokens. A piece is `Closed` if its last token is over when
its last character is read. It is `Pending` if the last token may still go on; the next piece then
has to begin with a character that ends names, numerals and empty strings (`isDelimiter`).

Main statements: `pending_name`, `pending_quote` and `closed_line`. A name is pending, and so is a
quoted text, which is read back as it was. Any text that scans on its own is closed once a line end
follows it.
-/

set_option autoImplicit false

namespace MockGraph.Syntax

/-! ## 1. Pieces of a text -/

/-- The characters of a piece, read from a place between tokens. -/
def Closed (text : String) (tokens : List Token) : Prop :=
  ∀ before rest, (text.toList ++ rest).foldlM Lexer.step ⟨before, .between⟩ =
    rest.foldlM Lexer.step ⟨tokens.reverse ++ before, .between⟩

/-- A character that ends a name and an empty string. -/
def isDelimiter (c : Char) : Bool := !isNameChar c && c ≠ '"'

/-- Like `Closed`, in front of a delimiter. -/
def Pending (text : String) (tokens : List Token) : Prop :=
  ∀ before c rest, isDelimiter c →
    (text.toList ++ c :: rest).foldlM Lexer.step ⟨before, .between⟩ =
      (c :: rest).foldlM Lexer.step ⟨tokens.reverse ++ before, .between⟩

/-- A text begins with a delimiter. -/
def Delimited (text : String) : Prop := ∃ c rest, text.toList = c :: rest ∧ isDelimiter c

section Pieces

variable {text more : String} {tokens rest : List Token}

theorem closed_empty : Closed "" [] := fun _ _ => rfl

theorem Closed.pending (h : Closed text tokens) : Pending text tokens :=
  fun before c rest _ => h before (c :: rest)

theorem Closed.append (h : Closed text tokens) (h' : Closed more rest) :
    Closed (text ++ more) (tokens ++ rest) := by
  intro before chars
  rw [String.toList_append, List.append_assoc, h, h', List.reverse_append, List.append_assoc]

theorem Closed.append_pending (h : Closed text tokens) (h' : Pending more rest) :
    Pending (text ++ more) (tokens ++ rest) := by
  intro before c chars hc
  rw [String.toList_append, List.append_assoc, h, h' _ c chars hc, List.reverse_append,
    List.append_assoc]

theorem Pending.append_closed (h : Pending text tokens) (h' : Closed more rest)
    (hd : Delimited more) : Closed (text ++ more) (tokens ++ rest) := by
  intro before chars
  obtain ⟨c, cs, hcs, hc⟩ := hd
  have hmore := h' (tokens.reverse ++ before) chars
  rw [hcs, List.cons_append] at hmore
  rw [String.toList_append, List.append_assoc, hcs, List.cons_append, h _ c _ hc, hmore,
    List.reverse_append, List.append_assoc]

theorem Delimited.append (h : Delimited text) (more : String) : Delimited (text ++ more) := by
  obtain ⟨c, rest, hc, hd⟩ := h
  exact ⟨c, rest ++ more.toList, by rw [String.toList_append, hc, List.cons_append], hd⟩

/-- A closed text is scanned to its tokens. -/
theorem Closed.scan (h : Closed text tokens) : Token.scan text = .ok tokens := by
  have hall := h [] []
  rw [List.append_nil, List.append_nil] at hall
  unfold Token.scan
  rw [hall]
  exact congrArg Except.ok (List.reverse_reverse tokens)

end Pieces

/-! ## 2. Names -/

theorem isDigit_of_isNameStart {c : Char} (h : isNameStart c = true) : c.isDigit = false := by
  rcases Bool.or_eq_true_iff.mp h with h | h
  · have hletter : (65 ≤ c.toNat ∧ c.toNat ≤ 90) ∨ (97 ≤ c.toNat ∧ c.toNat ≤ 122) := by
      rcases Bool.or_eq_true_iff.mp h with h | h
      · have hupper : c.val ≥ 'A'.val ∧ c.val ≤ 'Z'.val := of_decide_eq_true h
        exact .inl hupper
      · obtain ⟨hlow, hhigh⟩ := Bool.and_eq_true_iff.mp h
        exact .inr ⟨of_decide_eq_true hlow, of_decide_eq_true hhigh⟩
    have hlarge : ¬ c.toNat ≤ 57 := by omega
    exact Bool.and_eq_false_iff.mpr (.inr (decide_eq_false hlarge))
  · have hc : c = '_' := by simpa using h
    subst hc
    rfl

theorem start_of_isNameStart {c : Char} (h : isNameStart c = true) (tokens : List Token) :
    Lexer.start tokens c = .ok ⟨tokens, .name [c]⟩ := by
  have hne : ∀ d, isNameStart d = false → c ≠ d := by
    rintro d hd rfl
    simp [h] at hd
  have hignored : isIgnored c = false := by
    simp [isIgnored, hne ' ' (by decide), hne '\t' (by decide), hne '\n' (by decide),
      hne '\r' (by decide), hne '\ufeff' (by decide)]
  rw [Lexer.start, hignored]
  simp [hne ',' (by decide), hne '#' (by decide), hne '"' (by decide), hne '.' (by decide),
    hne '-' (by decide), hne '0' (by decide), isDigit_of_isNameStart h, h]

theorem foldlM_step_cons {lexer after : Lexer} {c : Char} (h : lexer.step c = .ok after)
    (rest : List Char) : (c :: rest).foldlM Lexer.step lexer = rest.foldlM Lexer.step after := by
  rw [List.foldlM_cons, h]
  rfl

theorem foldlM_name {cs : List Char} (h : ∀ c ∈ cs, isNameChar c = true) (tokens : List Token)
    (chars rest : List Char) :
    (cs ++ rest).foldlM Lexer.step ⟨tokens, .name chars⟩ =
      rest.foldlM Lexer.step ⟨tokens, .name (cs.reverse ++ chars)⟩ := by
  induction cs generalizing chars with
  | nil => rfl
  | cons c cs ih =>
    have hstep : Lexer.step ⟨tokens, .name chars⟩ c = .ok ⟨tokens, .name (c :: chars)⟩ := by
      simp [Lexer.step, h c List.mem_cons_self]
    rw [List.cons_append, foldlM_step_cons hstep, ih fun d hd => h d (List.mem_cons_of_mem _ hd)]
    simp

theorem isNameChar_of_isDelimiter {c : Char} (h : isDelimiter c = true) : isNameChar c = false := by
  simpa using (Bool.and_eq_true_iff.mp h).1

theorem ne_of_isDelimiter {c : Char} (h : isDelimiter c = true) : c ≠ '"' := by
  simpa using (Bool.and_eq_true_iff.mp h).2

/-- A character that ends a token is read as after the token. -/
theorem foldlM_of_step {lexer : Lexer} {tokens : List Token} {c : Char}
    (h : lexer.step c = Lexer.start tokens c) (rest : List Char) :
    (c :: rest).foldlM Lexer.step lexer = (c :: rest).foldlM Lexer.step ⟨tokens, .between⟩ := by
  rw [List.foldlM_cons, List.foldlM_cons, h]
  rfl

theorem pending_name {name : String} (h : isName name = true) : Pending name [.name name] := by
  intro before c rest hc
  unfold isName at h
  cases hl : name.toList with
  | nil => simp [hl] at h
  | cons first cs =>
    rw [hl] at h
    obtain ⟨hfirst, hcs⟩ := Bool.and_eq_true_iff.mp h
    have hstart : Lexer.step ⟨before, .between⟩ first = .ok ⟨before, .name [first]⟩ :=
      start_of_isNameStart hfirst before
    rw [List.cons_append, foldlM_step_cons hstart, foldlM_name (List.all_eq_true.mp hcs)]
    have hname : String.ofList (cs.reverse ++ [first]).reverse = name := by
      rw [List.reverse_append, List.reverse_reverse]
      exact (congrArg String.ofList hl).symm.trans String.ofList_toList
    refine foldlM_of_step ?_ rest
    simp only [Lexer.step, isNameChar_of_isDelimiter hc, Bool.false_eq_true, if_false, hname]
    rfl

/-! ## 3. Strings -/

theorem hexValue?_hexDigit {n : Nat} (h : n < 16) : Text.hexValue? (Text.hexDigit n) = some n := by
  have hall : ∀ n < 16, Text.hexValue? (Text.hexDigit n) = some n := by decide
  exact hall n h

theorem foldlM_code {c : Char} (h : c.toNat < 32) (tokens : List Token) (chars rest : List Char) :
    (['\\', 'u', '0', '0', Text.hexDigit (c.toNat / 16), Text.hexDigit (c.toNat % 16)] ++
        rest).foldlM Lexer.step ⟨tokens, .text chars⟩ =
      rest.foldlM Lexer.step ⟨tokens, .text (c :: chars)⟩ := by
  have hhigh : Text.hexValue? (Text.hexDigit (c.toNat / 16)) = some (c.toNat / 16) :=
    hexValue?_hexDigit (by omega)
  have hlow : Text.hexValue? (Text.hexDigit (c.toNat % 16)) = some (c.toNat % 16) :=
    hexValue?_hexDigit (by omega)
  have hvalue : 16 * (c.toNat / 16) + c.toNat % 16 = c.toNat := Nat.div_add_mod ..
  have hfirst : Lexer.step ⟨tokens, .unicode chars (.digit none 2 0)⟩
      (Text.hexDigit (c.toNat / 16)) =
        .ok ⟨tokens, .unicode chars (.digit none 3 (c.toNat / 16))⟩ := by
    simp [Lexer.step, Lexer.codeStep, hhigh]
  have hlast : Lexer.step ⟨tokens, .unicode chars (.digit none 3 (c.toNat / 16))⟩
      (Text.hexDigit (c.toNat % 16)) = .ok ⟨tokens, .text (c :: chars)⟩ := by
    have hlead : ¬ (0xD800 ≤ c.toNat ∧ c.toNat < 0xDC00) := by omega
    have hvalid : c.toNat.isValidChar := .inl (by omega)
    simp [Lexer.step, Lexer.codeStep, hlow, hvalue, Lexer.endDigits, hlead, Lexer.endCode, hvalid]
  change (Text.hexDigit (c.toNat / 16) :: Text.hexDigit (c.toNat % 16) :: rest).foldlM Lexer.step
    ⟨tokens, .unicode chars (.digit none 2 0)⟩ = _
  rw [foldlM_step_cons hfirst, foldlM_step_cons hlast]

/-- An escaped character is read back. -/
theorem foldlM_escape (c : Char) (tokens : List Token) (chars rest : List Char) :
    (Text.escape c ++ rest).foldlM Lexer.step ⟨tokens, .text chars⟩ =
      rest.foldlM Lexer.step ⟨tokens, .text (c :: chars)⟩ := by
  unfold Text.escape
  split
  · rfl
  · rfl
  · rfl
  · rfl
  · rfl
  · rfl
  · rfl
  · next hquote hslash hb hf hn hr ht =>
    split
    · next hlt => exact foldlM_code hlt tokens chars rest
    · next hge =>
      have hstep : Lexer.step ⟨tokens, .text chars⟩ c = .ok ⟨tokens, .text (c :: chars)⟩ := by
        have hquote : c ≠ '"' := fun h => hquote h
        have hslash : c ≠ '\\' := fun h => hslash h
        have hn : c ≠ '\n' := fun h => hn h
        have hr : c ≠ '\r' := fun h => hr h
        simp [Lexer.step, Lexer.textStep, hquote, hslash, hn, hr]
      exact foldlM_step_cons hstep rest

theorem foldlM_escapes (cs : List Char) (tokens : List Token) (chars rest : List Char) :
    (cs.flatMap Text.escape ++ rest).foldlM Lexer.step ⟨tokens, .text chars⟩ =
      rest.foldlM Lexer.step ⟨tokens, .text (cs.reverse ++ chars)⟩ := by
  induction cs generalizing chars with
  | nil => rfl
  | cons c cs ih =>
    rw [List.flatMap_cons, List.append_assoc, foldlM_escape, ih, List.reverse_cons,
      List.append_assoc]
    rfl

/-- No escape begins with a character that is special after a quote mark. -/
theorem escape_head (c : Char) :
    ∃ d ds, Text.escape c = d :: ds ∧ d ≠ '"' ∧ d ≠ '\n' ∧ d ≠ '\r' := by
  unfold Text.escape
  split
  case h_8 hquote _ _ _ hn hr _ =>
    split
    · exact ⟨_, _, rfl, by decide⟩
    · exact ⟨c, [], rfl, fun h => hquote h, fun h => hn h, fun h => hr h⟩
  all_goals exact ⟨_, _, rfl, by decide⟩

theorem closed_quote {text : String} (h : text ≠ "") : Closed (Text.quote text) [.string text] := by
  intro before rest
  cases hl : text.toList with
  | nil => exact absurd (String.toList_eq_nil_iff.mp hl) h
  | cons c cs =>
    obtain ⟨d, ds, hd, hquote, hn, hr⟩ := escape_head c
    have hopen : (Text.quote text).toList ++ rest =
        '"' :: d :: (ds ++ cs.flatMap Text.escape ++ '"' :: rest) := by
      rw [Text.quote, String.toList_ofList, hl, List.flatMap_cons, hd]
      simp
    -- After the quote mark the first character is read as inside the string.
    have hfirst : Lexer.step ⟨before, .quote⟩ d = Lexer.step ⟨before, .text []⟩ d := by
      simp [Lexer.step, Lexer.quoteStep, hquote, hn, hr]
    have hinside : (d :: (ds ++ cs.flatMap Text.escape ++ '"' :: rest)).foldlM Lexer.step
        ⟨before, .text []⟩ =
          ('"' :: rest).foldlM Lexer.step ⟨before, .text (text.toList.reverse ++ [])⟩ := by
      rw [← foldlM_escapes, hl, List.flatMap_cons, hd]
      simp only [List.cons_append, List.append_assoc]
    have hclose : Lexer.step ⟨before, .text (text.toList.reverse ++ [])⟩ '"' =
        .ok ⟨.string text :: before, .between⟩ := by
      simp [Lexer.step, Lexer.textStep]
    have hquotes : Lexer.step ⟨before, .between⟩ '"' = .ok ⟨before, .quote⟩ := rfl
    rw [hopen, foldlM_step_cons hquotes, List.foldlM_cons, hfirst, ← List.foldlM_cons, hinside,
      foldlM_step_cons hclose]
    rfl

/-- A quoted text is read back. -/
theorem pending_quote (text : String) : Pending (Text.quote text) [.string text] := by
  by_cases h : text = ""
  · subst h
    intro before c rest hc
    have hstep : Lexer.step ⟨before, .twoQuotes⟩ c = Lexer.start (.string "" :: before) c := by
      simp [Lexer.step, ne_of_isDelimiter hc]
    exact foldlM_of_step hstep rest
  · exact (closed_quote h).pending

/-! ## 4. Texts that scan on their own -/

/-- A lexer with more tokens in front. -/
def Lexer.after (before : List Token) (lexer : Lexer) : Lexer :=
  ⟨lexer.tokens ++ before, lexer.mode⟩

section Frame

variable (before tokens : List Token) (chars : List Char) (c : Char)

theorem start_after : Lexer.start (tokens ++ before) c =
    (Lexer.start tokens c).map (Lexer.after before) := by
  unfold Lexer.start
  repeat' split
  all_goals rfl

theorem afterNumeral_after (phase : Lexer.Phase) :
    Lexer.afterNumeral (tokens ++ before) phase chars c =
      (Lexer.afterNumeral tokens phase chars c).map (Lexer.after before) := by
  unfold Lexer.afterNumeral
  split
  · rfl
  · cases Lexer.numeralToken phase chars with
    | error error => rfl
    | ok token => exact start_after before (token :: tokens) c

theorem textStep_after : Lexer.textStep (tokens ++ before) chars c =
    (Lexer.textStep tokens chars c).map (Lexer.after before) := by
  unfold Lexer.textStep
  repeat' split
  all_goals rfl

theorem quoteStep_after : Lexer.quoteStep (tokens ++ before) c =
    (Lexer.quoteStep tokens c).map (Lexer.after before) := by
  unfold Lexer.quoteStep
  split
  · rfl
  · split
    · rfl
    · exact textStep_after before tokens [] c

theorem endCode_after (value : Nat) : Lexer.endCode (tokens ++ before) chars value =
    (Lexer.endCode tokens chars value).map (Lexer.after before) := by
  unfold Lexer.endCode
  split <;> rfl

theorem endDigits_after (lead? : Option Nat) (value : Nat) :
    Lexer.endDigits (tokens ++ before) chars lead? value =
      (Lexer.endDigits tokens chars lead? value).map (Lexer.after before) := by
  unfold Lexer.endDigits
  split <;> split
  · exact endCode_after before tokens chars _
  · rfl
  · rfl
  · exact endCode_after before tokens chars _

theorem codeStep_after (code : Lexer.Code) :
    Lexer.codeStep (tokens ++ before) chars code c =
      (Lexer.codeStep tokens chars code c).map (Lexer.after before) := by
  unfold Lexer.codeStep
  cases code with
  | opening =>
    cases Text.hexValue? c with
    | some digit => rfl
    | none =>
      simp only
      split <;> rfl
  | digit lead? count value =>
    cases Text.hexValue? c with
    | some digit =>
      simp only
      split
      · rfl
      · exact endDigits_after before tokens chars lead? _
    | none => rfl
  | trailing lead backslash =>
    cases backslash <;> simp only <;> split <;> rfl
  | braced value? =>
    cases Text.hexValue? c with
    | some digit => rfl
    | none =>
      cases value? with
      | none => rfl
      | some value =>
        simp only
        split
        · exact endCode_after before tokens chars value
        · rfl

theorem blockStep_after (pending : Lexer.Pending) :
    Lexer.blockStep (tokens ++ before) chars pending c =
      (Lexer.blockStep tokens chars pending c).after before := by
  unfold Lexer.blockStep Lexer.blockChar
  cases pending <;> simp only <;> repeat' split
  all_goals rfl

/-- What stands in front makes no difference to a lexer. -/
theorem step_after (lexer : Lexer) : (lexer.after before).step c =
    (lexer.step c).map (Lexer.after before) := by
  obtain ⟨tokens, mode⟩ := lexer
  unfold Lexer.step Lexer.after
  simp only
  cases mode with
  | between => exact start_after before tokens c
  | comment => rfl
  | name chars =>
    simp only
    split
    · rfl
    · exact start_after before (_ :: tokens) c
  | numeral phase chars =>
    simp only
    split
    · rfl
    · exact afterNumeral_after before tokens chars c phase
  | dots count =>
    simp only
    split
    · split <;> rfl
    · rfl
  | quote => exact quoteStep_after before tokens c
  | twoQuotes =>
    simp only
    split
    · rfl
    · exact start_after before (_ :: tokens) c
  | text chars => exact textStep_after before tokens chars c
  | escape chars =>
    simp only
    split
    · rfl
    · split <;> rfl
  | unicode chars code => exact codeStep_after before tokens chars c code
  | block chars pending => exact congrArg Except.ok (blockStep_after before tokens chars c pending)

theorem foldlM_after (cs : List Char) (lexer : Lexer) :
    cs.foldlM Lexer.step (lexer.after before) =
      (cs.foldlM Lexer.step lexer).map (Lexer.after before) := by
  induction cs generalizing lexer with
  | nil => rfl
  | cons c cs ih =>
    rw [List.foldlM_cons, List.foldlM_cons, step_after]
    cases lexer.step c with
    | error error => rfl
    | ok next => exact ih next

end Frame

/-- A line end closes what the end of a text would. -/
theorem step_newline {lexer : Lexer} {tokens : List Token} (h : lexer.finish = .ok tokens) :
    lexer.step '\n' = .ok ⟨tokens.reverse, .between⟩ := by
  obtain ⟨found, mode⟩ := lexer
  unfold Lexer.finish at h
  cases mode with
  | between | comment | name | twoQuotes =>
    cases h
    rw [List.reverse_reverse]
    rfl
  | numeral phase chars =>
    cases hn : Lexer.numeralToken phase chars with
    | error error =>
      simp only [hn] at h
      cases h
    | ok token =>
      simp only [hn] at h
      cases h
      rw [List.reverse_reverse]
      have hphase : phase.next? '\n' = none := by cases phase <;> rfl
      simp only [Lexer.step, hphase, Lexer.afterNumeral, hn]
      rfl
  | dots | quote | text | escape | unicode | block => cases h

/-- Any text that can be scanned is closed by a line end. -/
theorem closed_line {text : String} {tokens : List Token} (h : Token.scan text = .ok tokens) :
    Closed (text ++ "\n") tokens := by
  intro before rest
  unfold Token.scan at h
  cases hall : text.toList.foldlM Lexer.step ⟨[], .between⟩ with
  | error error =>
    rw [hall] at h
    cases h
  | ok lexer =>
    rw [hall] at h
    have hend : lexer.step '\n' = .ok ⟨tokens.reverse, .between⟩ := step_newline h
    -- The text was scanned with nothing in front; the tokens before it change nothing.
    have hframe := foldlM_after before text.toList ⟨[], .between⟩
    rw [hall] at hframe
    rw [String.toList_append, List.append_assoc, List.foldlM_append]
    change (text.toList.foldlM Lexer.step (Lexer.after before ⟨[], .between⟩) >>= _) = _
    rw [hframe]
    change ('\n' :: rest).foldlM Lexer.step (lexer.after before) = _
    rw [List.foldlM_cons, step_after, hend]
    rfl

end MockGraph.Syntax
