import MockGraph.Proofs.Introspection.Printing
import MockGraph.Proofs.Syntax.Yields

/-!
# `Proofs/Introspection/References`: references that end in nothing

A type reference may end in no name. Then it writes only its brackets and marks, or nothing at all,
and the parser meets a gap. This module follows the parser through one: in the type of a field, where
the name of the next field may be taken for the type, and in the interfaces of a type or the members
of a union, where a separator or the keyword of the next definition may close the gap.

Each result is an `Attempts`: what is read is sound, or the parser is left where nothing can go on.
Inside braces that is in front of a mark or a colon (`Halted`), and outside in front of a mark, a
separator or the name of a type (`Astray`).
-/

set_option autoImplicit false

namespace MockGraph.Introspection

open Syntax

/-! ## 1. Tokens of references -/

namespace TypeReference

/-- A reference writes nothing, or it begins with a punctuator, or with the name that it ends in. -/
theorem tokens_cases (reference : TypeReference) :
    reference.tokens = [] ∨
    (∃ p ts, reference.tokens = .punct p :: ts ∧ p ∈ [.openBracket, .bang]) ∨
    ∃ name ts, reference.tokens = .name name :: ts ∧ reference.endName? = some name ∧
      (ts = [] ∨ ∃ us, ts = .punct .bang :: us) := by
  fun_induction tokens reference with
  | case1 name inner ih => exact .inr (.inl ⟨.openBracket, _, rfl, by simp⟩)
  | case2 name inner ih =>
    rcases ih with h | ⟨p, ts, h, hp⟩ | ⟨name, ts, h, hend, hts⟩
    · exact .inr (.inl ⟨.bang, [], by rw [h]; rfl, by simp⟩)
    · exact .inr (.inl ⟨p, _, by rw [h]; rfl, hp⟩)
    · refine .inr (.inr ⟨name, _, by rw [h]; rfl, hend, .inr ?_⟩)
      rcases hts with rfl | ⟨us, rfl⟩
      · exact ⟨[], rfl⟩
      · exact ⟨_, rfl⟩
  | case3 kind name inner hl hn =>
    have hend : (mk kind name inner).endName? = name := endName?.eq_3 kind name inner hl hn
    cases name with
    | none => exact .inl rfl
    | some name => exact .inr (.inr ⟨name, [], rfl, hend, .inl rfl⟩)

end TypeReference

/-! ## 2. The type of a field -/

theorem openLists_of_next {depth : Nat} {lexemes : List Lexeme} {found : TypeRef × List Lexeme}
    (h : Parser.openLists depth lexemes = .ok found) :
    next lexemes = some (.punct .openBracket) ∨ ∃ name, next lexemes = some (.name name) := by
  unfold Parser.openLists at h
  split at h
  · exact .inl rfl
  · exact .inr ⟨_, rfl⟩
  · cases h

/-- After the tokens of a reference, the lists that are open around it are left to close, unless a
second mark keeps them open or there were no tokens. -/
theorem openLists_reference (reference : TypeReference) {depth : Nat} {lexemes rest left : List Lexeme}
    {type : TypeRef} (hl : lexemes.map (·.token) = reference.tokens)
    (h : Parser.openLists depth (lexemes ++ rest) = .ok (type, left)) :
    reference.tokens = [] ∨ reference.endName?.isSome ∧
      (next left = some (.punct .bang) ∨
        ∃ type', Parser.closeLists depth type' rest = .ok (type, left)) := by
  fun_induction TypeReference.tokens reference generalizing depth lexemes rest with
  | case1 name inner ih =>
    obtain ⟨⟨token, flag⟩, others, rfl, rfl, hothers⟩ := List.map_eq_cons_iff.mp hl
    obtain ⟨inside, closing, rfl, hinside, hclosing⟩ := List.map_eq_append_iff.mp hothers
    obtain ⟨bracket, rfl⟩ := singleton_of_map hclosing
    refine .inr ?_
    rw [List.cons_append, List.append_assoc, Parser.openLists] at h
    split at h
    · rcases ih hinside h with hnone | ⟨hsome, hbang | ⟨type', hclose⟩⟩
      · -- Nothing stands between the brackets.
        rw [hnone] at hinside
        rw [List.map_eq_nil_iff.mp hinside] at h
        rcases openLists_of_next h with hn | ⟨name, hn⟩ <;> cases hn
      · exact ⟨hsome, .inl hbang⟩
      · refine ⟨hsome, .inr ⟨.list type', ?_⟩⟩
        rw [← closeLists_bracket depth type' bracket rest]
        exact hclose
    · cases h
  | case2 name inner ih =>
    obtain ⟨inside, mark, rfl, hinside, hmark⟩ := List.map_eq_append_iff.mp hl
    obtain ⟨bang, rfl⟩ := singleton_of_map hmark
    refine .inr ?_
    rw [List.append_assoc] at h
    rcases ih hinside h with hnone | ⟨hsome, hbang | ⟨type', hclose⟩⟩
    · rw [hnone] at hinside
      rw [List.map_eq_nil_iff.mp hinside] at h
      rcases openLists_of_next h with hn | ⟨name, hn⟩ <;> cases hn
    · exact ⟨hsome, .inl hbang⟩
    · refine ⟨hsome, ?_⟩
      by_cases hn : next rest = some (.punct .bang)
      · -- A second mark can end a type only where no list is open.
        cases depth with
        | zero =>
          cases hclose
          exact .inl hn
        | succ depth =>
          obtain ⟨flag, others, rfl⟩ := cons_of_next hn
          cases hclose
      · have hplain : notPunct [.bang] (next rest) := by simpa [notPunct] using hn
        have hclose : Parser.closeLists depth type' (⟨.punct .bang, bang⟩ :: rest) =
          .ok (type, left) := hclose
        rw [closeLists_bang hplain] at hclose
        exact .inr ⟨_, hclose⟩
  | case3 kind name inner hl' hn =>
    cases name with
    | none => exact .inl rfl
    | some name =>
      obtain ⟨flag, rfl⟩ := singleton_of_map hl
      have hend := TypeReference.endName?.eq_3 kind (some name) inner hl' hn
      refine .inr ⟨by rw [hend]; rfl, .inr ⟨.named name, h⟩⟩

/-- The tokens of the type of a field, if the field has one. -/
def typeTokens (type? : Option TypeReference) : List Token :=
  (type?.map TypeReference.tokens).getD []

/-- Whether a field has a type that ends in a name. -/
def HasType (type? : Option TypeReference) : Prop := (type?.bind TypeReference.endName?).isSome

/-- What comes after a member of a type: another one with a type, or the end. -/
def MemberNext (lexemes : List Lexeme) : Prop :=
  next lexemes = some (.punct .closeBrace) ∨ (∃ text, next lexemes = some (.string text)) ∨
    ∃ name flag rest, lexemes = ⟨.name name, flag⟩ :: rest ∧ next rest = some (.punct .colon)

/-- What comes after the type of a member. -/
def TypeNext (lexemes : List Lexeme) : Prop :=
  MemberNext lexemes ∨ next lexemes = some (.punct .atSign) ∨ next lexemes = some (.punct .equals)

/-- In braces nothing goes on in front of a mark or a colon. -/
def Halted (lexemes : List Lexeme) : Prop :=
  next lexemes = some (.punct .bang) ∨ next lexemes = some (.punct .colon)

theorem Halted.next_ne {lexemes : List Lexeme} (h : Halted lexemes) {p : Punctuator}
    (hp : p ∉ [.bang, .colon]) : next lexemes ≠ some (.punct p) := by
  simp only [List.mem_cons, List.not_mem_nil, or_false, not_or] at hp
  rcases h with h | h
  · rw [h]
    exact fun e => hp.1 (Token.punct.inj (Option.some.inj e)).symm
  · rw [h]
    exact fun e => hp.2 (Token.punct.inj (Option.some.inj e)).symm

theorem MemberNext.apart {lexemes : List Lexeme} (h : MemberNext lexemes) :
    apart (next lexemes) := by
  rcases h with h | ⟨text, h⟩ | ⟨name, flag, rest, rfl, -⟩
  · simp [h, Syntax.apart, notPunct]
  · simp [h, Syntax.apart, notPunct]
  · simp [next, Syntax.apart, notPunct]

theorem TypeNext.ne_bang {lexemes : List Lexeme} (h : TypeNext lexemes) :
    next lexemes ≠ some (.punct .bang) := by
  rcases h with h | h | h
  · exact h.apart .bang (by simp)
  · simp [h]
  · simp [h]

/-- Where no type is written, the parser takes the name of the next member for one. -/
theorem yields_typeRef_gap {lexemes : List Lexeme} (h : TypeNext lexemes) :
    Yields Parser.typeRef lexemes fun _ left => next left = some (.punct .colon) := by
  intro type left hok
  have hn := openLists_of_next hok
  rcases h with (h | ⟨text, h⟩ | ⟨name, flag, rest, rfl, hcolon⟩) | h | h
  case inl.inr.inr =>
    have hplain : notPunct [.bang] (next rest) := by simp [hcolon, notPunct]
    have hread : Parser.typeRef (⟨.name name, flag⟩ :: rest) = .ok (.named name, rest) :=
      takes_typeRef (t := .named name) (Nat.zero_le _) [_] rest rfl hplain
    rw [hread] at hok
    cases hok
    exact hcolon
  all_goals
    rw [h] at hn
    rcases hn with hn | ⟨name, hn⟩ <;> cases hn

theorem attempts_typeRef (type? : Option TypeReference) :
    Attempts Parser.typeRef (typeTokens type?) TypeNext Halted (HasType type?) := by
  intro lexemes rest hl hrest
  have hgap : typeTokens type? = [] → Yields Parser.typeRef (lexemes ++ rest)
      fun _ left => (HasType type? ∧ left = rest) ∨ Halted left := by
    intro hnone
    rw [hnone] at hl
    rw [List.map_eq_nil_iff.mp hl]
    exact (yields_typeRef_gap hrest).mono fun _ _ h => .inr (.inr h)
  cases type? with
  | none => exact hgap rfl
  | some type =>
    intro found left hok
    rcases openLists_reference type hl hok with hnone | ⟨hsome, hbang | ⟨type', hclose⟩⟩
    · exact hgap hnone _ _ hok
    · exact .inr (.inl hbang)
    · have hplain : notPunct [.bang] (next rest) := by simpa [notPunct] using hrest.ne_bang
      have hmarked : Parser.closeLists 0 type' rest = .ok (type', rest) :=
        congrArg Except.ok (marked_of_next hplain type')
      rw [hmarked] at hclose
      cases hclose
      exact .inl ⟨hsome, rfl⟩

/-! ## 3. Members -/

theorem Halted.directives {lexemes : List Lexeme} (h : Halted lexemes) :
    Parser.directives true lexemes = .ok ([], lexemes) := by
  refine takes_no_directives [] lexemes rfl ?_
  simpa [notPunct] using h.next_ne (p := .atSign) (by simp)

theorem Halted.yields_item {α : Type} {rest : Option String → Name → Parser α} {what : String}
    {lexemes : List Lexeme} (h : Halted lexemes) :
    Yields (do rest (← Parser.description?) (← Parser.name what)) lexemes fun _ _ => False := by
  obtain ⟨p, flag, others, rfl⟩ : ∃ p flag others, lexemes = ⟨.punct p, flag⟩ :: others := by
    rcases h with h | h <;> exact ⟨_, cons_of_next h⟩
  have hnothing : Parser.description? (⟨.punct p, flag⟩ :: others) =
      .ok (none, ⟨.punct p, flag⟩ :: others) := rfl
  refine Yields.of_ok hnothing ?_
  exact yields_of_error rfl

section Members

variable {marks : List Token} {directives : List Directive}

theorem attempts_fieldDefinition (description : Option String) (name : Name)
    (type? : Option TypeReference) (hd : Annotates marks directives) :
    Attempts Parser.fieldDefinition
      (descriptionTokens description ++ .name name :: .punct .colon :: (typeTokens type? ++ marks))
      MemberNext Halted (HasType type?) := by
  have htyped : Attempts (do
      let type ← Parser.typeRef
      return (⟨description, name, [], type, ← Parser.directives true⟩ : FieldDefinition))
        (typeTokens type? ++ marks) MemberNext Halted (HasType type? ∧ True) := by
    refine (attempts_typeRef type?).bind (fun type => ?_) (fun lexemes rest hl hrest => ?_)
      (fun type left hleft => ?_)
    · exact (hd.takes.attempts fun _ h => h.apart).map
        (FieldDefinition.mk description name [] type)
    · obtain rfl | ⟨more, rfl⟩ := hd.head
      · rw [List.map_eq_nil_iff.mp hl]
        exact .inl hrest
      · exact .inr (.inl (next_of_map hl))
    · exact Yields.of_ok hleft.directives (yields_pure hleft)
  have hcolon : Attempts (do
      Parser.punct .colon
      let type ← Parser.typeRef
      return (⟨description, name, [], type, ← Parser.directives true⟩ : FieldDefinition))
        ([.punct .colon] ++ (typeTokens type? ++ marks)) MemberNext Halted (HasType type? ∧ True) :=
    (takes_punct .colon).before htyped fun _ _ _ _ => trivial
  have hno : Takes (Parser.enclosed? .openParen .closeParen Parser.inputValue) []
      (notPunct [.openParen]) [] :=
    @takes_enclosed? _ Parser.inputValue _ _ anything [] (by simp) (by simp) trivial
  have hfield : Attempts (do
      let arguments ← Parser.enclosed? .openParen .closeParen Parser.inputValue
      Parser.punct .colon
      let type ← Parser.typeRef
      return (⟨description, name, arguments, type, ← Parser.directives true⟩ : FieldDefinition))
        ([] ++ ([.punct .colon] ++ (typeTokens type? ++ marks))) MemberNext Halted
        (HasType type? ∧ True) := by
    refine hno.before hcolon fun lexemes rest hl _ => ?_
    rw [next_of_map hl]
    simp [notPunct]
  exact (attempts_described description name "a field name" hfield).imp And.left

/-- A default value, as deep as it may be. -/
inductive AnyDefault : List Token → Prop where
  | none : AnyDefault []
  | some {depth : Nat} {tokens : List Token} {value : Value} (h : Literal depth tokens value) :
      AnyDefault (.punct .equals :: tokens)

theorem attempts_default? {tokens : List Token} (h : AnyDefault tokens) :
    Attempts Parser.default? tokens MemberNext Halted True := by
  cases h with
  | none =>
    have hnone : Takes Parser.default? [] (notPunct [.equals]) none := takes_default? .none
    exact hnone.attempts fun rest hrest => apart_mono (by simp) hrest.apart
  | @some depth tokens value h =>
    have hvalue : Attempts (do return some (← Parser.valueAt true maxNesting)) tokens MemberNext
        Halted True := by
      refine Attempts.map some ?_
      intro lexemes rest hl _
      exact (attempts_value h maxNesting lexemes rest hl trivial).mono fun _ _ h => h.imp id False.elim
    have hall : Attempts Parser.default? ([.punct .equals] ++ tokens) MemberNext Halted True :=
      (takes_punct? .equals).before hvalue fun _ _ _ _ => trivial
    exact hall

theorem attempts_inputValue {tokens : List Token} (description : Option String) (name : Name)
    (type : TypeReference) (hd : AnyDefault tokens) :
    Attempts Parser.inputValue
      (descriptionTokens description ++
        .name name :: .punct .colon :: (typeTokens (some type) ++ tokens))
      MemberNext Halted (HasType (some type)) := by
  have hmarks : ∀ found default, Attempts (do
      return (⟨description, name, found, default, ← Parser.directives true⟩ : InputValue)) []
        MemberNext Halted True := by
    intro found default
    exact (annotates_nil.takes.attempts fun _ h => h.apart).map
      (InputValue.mk description name found default)
  have hdefault : ∀ found, Attempts (do
      let default ← Parser.default?
      return (⟨description, name, found, default, ← Parser.directives true⟩ : InputValue))
        (tokens ++ []) MemberNext Halted (True ∧ True) := by
    intro found
    refine (attempts_default? hd).bind (hmarks found) (fun lexemes rest hl hrest => ?_)
      (fun default left hleft => ?_)
    · rwa [List.map_eq_nil_iff.mp hl]
    · exact Yields.of_ok hleft.directives (yields_pure hleft)
  have htyped : Attempts (do
      let type ← Parser.typeRef
      let default ← Parser.default?
      return (⟨description, name, type, default, ← Parser.directives true⟩ : InputValue))
        (typeTokens (some type) ++ (tokens ++ [])) MemberNext Halted
        (HasType (some type) ∧ True ∧ True) := by
    refine (attempts_typeRef (some type)).bind hdefault (fun lexemes rest hl hrest => ?_)
      (fun found left hleft => ?_)
    · rw [List.append_nil] at hl
      cases hd with
      | none =>
        rw [List.map_eq_nil_iff.mp hl]
        exact .inl hrest
      | some h => exact .inr (.inr (next_of_map hl))
    · have hnone : Parser.default? left = .ok (none, left) := by
        refine takes_default? .none [] left rfl ?_
        simpa [notPunct] using hleft.next_ne (p := .equals) (by simp)
      refine Yields.of_ok hnone ?_
      exact Yields.of_ok hleft.directives (yields_pure hleft)
  have hcolon : Attempts (do
      Parser.punct .colon
      let type ← Parser.typeRef
      let default ← Parser.default?
      return (⟨description, name, type, default, ← Parser.directives true⟩ : InputValue))
        ([.punct .colon] ++ (typeTokens (some type) ++ (tokens ++ []))) MemberNext Halted
        (HasType (some type) ∧ True ∧ True) :=
    (takes_punct .colon).before htyped fun _ _ _ _ => trivial
  rw [List.append_nil] at hcolon
  exact (attempts_described description name "an argument or field name" hcolon).imp And.left

/-- Three names are no members of an enum; with any other name the member is read. -/
theorem attempts_enumValue (description : Option String) (name : Name)
    (hd : Annotates marks directives) :
    Attempts Parser.enumValue (descriptionTokens description ++ .name name :: marks)
      (fun rest => apart (next rest)) Halted True := by
  by_cases hname : name ∈ ["true", "false", "null"]
  · refine attempts_described description name "an enum value" ?_
    have hcontains : ["true", "false", "null"].contains name = true := by simpa using hname
    intro lexemes rest hl _
    simp only [hcontains, if_true]
    exact yields_of_error rfl
  · exact (takes_enumValue description hname hd).attempts fun _ h => h

end Members

/-! ## 4. References with separators -/

/-- The words that a definition may begin with, and go on with a name or a brace. -/
def definitionWords : List String := "schema" :: "extend" :: typeWords

/-- A name that begins no definition of a type system. -/
def AtName (lexemes : List Lexeme) : Prop :=
  ∃ word flag rest, lexemes = ⟨.name word, flag⟩ :: rest ∧ word ∉ definitionWords ∧
    next rest ≠ some (.punct .atSign)

/-- Outside braces nothing goes on here. -/
def Astray (lexemes : List Lexeme) : Prop :=
  AtName lexemes ∨ ∃ p, next lexemes = some (.punct p) ∧ p ∉ [.atSign, .openBrace]

/-- What comes after a definition: the end, a string, or a keyword and the name of a type. -/
def Boundary (lexemes : List Lexeme) : Prop :=
  lexemes = [] ∨ (∃ text, next lexemes = some (.string text)) ∨
    ∃ word flag rest, lexemes = ⟨.name word, flag⟩ :: rest ∧ word ∈ typeWords ∧ AtName rest

/-- What comes after references: a brace or the end of the definition. -/
def ListNext (lexemes : List Lexeme) : Prop :=
  next lexemes = some (.punct .openBrace) ∨ Boundary lexemes

theorem Boundary.outside {lexemes : List Lexeme} (h : Boundary lexemes) :
    outside (next lexemes) := by
  rcases h with rfl | ⟨text, h⟩ | ⟨word, flag, rest, rfl, hword, -⟩
  · exact outside_none
  · rw [h]
    simp [Syntax.outside]
  · exact outside_of_typeWords hword

theorem Astray.next_ne {lexemes : List Lexeme} (h : Astray lexemes) {p : Punctuator}
    (hp : p ∈ [.atSign, .openBrace]) : next lexemes ≠ some (.punct p) := by
  rcases h with ⟨word, flag, rest, rfl, -⟩ | ⟨q, hq, hnot⟩
  · simp [next]
  · rw [hq]
    rintro e
    cases e
    exact hnot hp

theorem AtName.next_ne {lexemes : List Lexeme} (h : AtName lexemes) (p : Punctuator) :
    next lexemes ≠ some (.punct p) := by
  obtain ⟨word, flag, rest, rfl, -⟩ := h
  simp [next]

section Lists

variable {separator : Punctuator} {what : String}

/-- A name is read from a reference, or past one that writes nothing. -/
theorem yields_referenceName (reference : TypeReference) {lexemes rest : List Lexeme}
    (hl : lexemes.map (·.token) = reference.tokens) :
    Yields (Parser.name what) (lexemes ++ rest) fun _ left =>
      (reference.endName?.isSome ∧ (left = rest ∨ next left = some (.punct .bang))) ∨
      (reference.tokens = [] ∧ ∃ name flag, rest = ⟨.name name, flag⟩ :: left) := by
  refine yields_name fun name flag left hleft => ?_
  rcases reference.tokens_cases with h | ⟨p, ts, h, -⟩ | ⟨end_, ts, h, hend, hts⟩
  · rw [h] at hl
    rw [List.map_eq_nil_iff.mp hl] at hleft
    exact .inr ⟨h, name, flag, hleft⟩
  · have hnext := @next_of_map lexemes rest _ _ (hl.trans h)
    rw [hleft] at hnext
    cases hnext
  · obtain ⟨⟨token, flag'⟩, others, rfl, rfl, hothers⟩ := List.map_eq_cons_iff.mp (hl.trans h)
    obtain ⟨-, rfl⟩ := List.cons.inj hleft
    refine .inl ⟨by rw [hend]; rfl, ?_⟩
    rcases hts with rfl | ⟨us, rfl⟩
    · rw [List.map_eq_nil_iff.mp hothers]
      exact .inl rfl
    · exact .inr (next_of_map hothers)

/-- A loop over separated names stops in front of anything but the separator. -/
theorem yields_names_stop {fuel : Nat} {lexemes : List Lexeme}
    (h : next lexemes ≠ some (.punct separator)) :
    Yields (Parser.loop (Parser.punct? separator) (Parser.name what) fuel) lexemes
      fun _ left => left = lexemes := by
  cases fuel with
  | zero => exact yields_pure rfl
  | succ fuel =>
    have hstop : Parser.punct? separator lexemes = .ok (false, lexemes) :=
      takes_no_punct? separator [] lexemes rfl (by simpa [notPunct] using h)
    unfold Parser.loop
    exact Yields.of_ok hstop (yields_pure rfl)

theorem ListNext.next_ne (hs : separator ∈ [.ampersand, .pipe]) {lexemes : List Lexeme}
    (h : ListNext lexemes) : next lexemes ≠ some (.punct separator) := by
  rcases h with h | h
  · rw [h]
    rintro e
    cases e
    simp at hs
  · exact h.outside.1 separator

theorem astray_separator (hs : separator ∈ [.ampersand, .pipe]) {lexemes : List Lexeme}
    (h : next lexemes = some (.punct separator)) : Astray lexemes := by
  refine .inr ⟨separator, h, ?_⟩
  rintro hnot
  simp only [List.mem_cons, List.not_mem_nil, or_false] at hs hnot
  rcases hs with rfl | rfl <;> simp at hnot

/-- Past a gap in front of what comes after references, a keyword is read as a name. -/
theorem ListNext.atName {lexemes left : List Lexeme} (h : ListNext lexemes) {name : String}
    {flag : Bool} (hl : lexemes = ⟨.name name, flag⟩ :: left) : AtName left := by
  subst hl
  rcases h with h | h | ⟨text, h⟩ | ⟨word, flag, rest, h, -, hname⟩
  · cases h
  · cases h
  · cases h
  · cases h
    exact hname

/-- The tokens of references that are not the first. -/
def moreTokens (separator : Punctuator) (more : List TypeReference) : List Token :=
  more.flatMap fun t => .punct separator :: t.tokens

theorem next_moreTokens {type : TypeReference} {more : List TypeReference}
    {lexemes rest : List Lexeme} (hl : lexemes.map (·.token) = moreTokens separator (type :: more)) :
    next (lexemes ++ rest) = some (.punct separator) := by
  rw [moreTokens, List.flatMap_cons, List.cons_append] at hl
  exact next_of_map hl

/-- The loop over separated names, started after the name of a reference was read. -/
theorem yields_afterName {fuel : Nat} {reference : TypeReference} {more : List TypeReference}
    {lexemes rest left : List Lexeme} (hs : separator ∈ [.ampersand, .pipe])
    (hl : lexemes.map (·.token) = moreTokens separator more) (hrest : ListNext rest)
    (hloop : Yields (Parser.loop (Parser.punct? separator) (Parser.name what) fuel)
      (lexemes ++ rest) fun _ left =>
        ((∀ type ∈ more, type.endName?.isSome) ∧ left = rest) ∨ Astray left)
    (hleft : (reference.endName?.isSome ∧
        (left = lexemes ++ rest ∨ next left = some (.punct .bang))) ∨
      (reference.tokens = [] ∧ ∃ name flag, lexemes ++ rest = ⟨.name name, flag⟩ :: left)) :
    Yields (Parser.loop (Parser.punct? separator) (Parser.name what) fuel) left fun _ left =>
      ((∀ type ∈ reference :: more, type.endName?.isSome) ∧ left = rest) ∨ Astray left := by
  rcases hleft with ⟨hsome, rfl | hbang⟩ | ⟨-, name, flag, hgap⟩
  · refine hloop.mono fun _ left h => h.imp (fun h => ⟨?_, h.2⟩) id
    exact List.forall_mem_cons.mpr ⟨hsome, h.1⟩
  · have hne : next left ≠ some (.punct separator) := by
      rw [hbang]
      rintro e
      cases e
      simp at hs
    refine (yields_names_stop hne).mono fun _ left' h => .inr (.inr ⟨.bang, ?_, by simp⟩)
    rw [h, hbang]
  · -- The name comes from behind all references, for a separator is no name.
    cases more with
    | cons type more =>
      have hnext := @next_moreTokens separator type more lexemes rest hl
      rw [hgap] at hnext
      cases hnext
    | nil =>
      rw [List.map_eq_nil_iff.mp hl] at hgap
      have hname : AtName left := hrest.atName hgap
      refine (yields_names_stop (hname.next_ne separator)).mono fun _ left' h => .inr (.inl ?_)
      rw [h]
      exact hname

theorem yields_names (hs : separator ∈ [.ampersand, .pipe]) (more : List TypeReference) (fuel : Nat)
    {lexemes rest : List Lexeme} (hl : lexemes.map (·.token) = moreTokens separator more)
    (hrest : ListNext rest) :
    Yields (Parser.loop (Parser.punct? separator) (Parser.name what) fuel) (lexemes ++ rest)
      fun _ left => ((∀ type ∈ more, type.endName?.isSome) ∧ left = rest) ∨ Astray left := by
  induction more generalizing fuel lexemes with
  | nil =>
    rw [List.map_eq_nil_iff.mp hl]
    exact (yields_names_stop (hrest.next_ne hs)).mono fun _ left h => .inl ⟨by simp, h⟩
  | cons type more ih =>
    have hnext := @next_moreTokens separator type more lexemes rest hl
    cases fuel with
    | zero => exact yields_pure (.inr (astray_separator hs hnext))
    | succ fuel =>
      rw [moreTokens, List.flatMap_cons] at hl
      obtain ⟨⟨token, flag⟩, others, rfl, rfl, hothers⟩ := List.map_eq_cons_iff.mp hl
      obtain ⟨first, last, rfl, hfirst, hlast⟩ := List.map_eq_append_iff.mp hothers
      have hmore : Parser.punct? separator (⟨.punct separator, flag⟩ :: (first ++ last) ++ rest) =
          .ok (true, first ++ (last ++ rest)) := by
        rw [← List.append_assoc]
        exact takes_punct? separator [_] _ rfl trivial
      unfold Parser.loop
      refine Yields.of_ok hmore ?_
      refine (yields_referenceName type hfirst).bind fun name left hleft => ?_
      refine (yields_afterName hs hlast hrest (ih fuel hlast) hleft).bind fun names left hleft => ?_
      exact yields_pure hleft

/-- The references that the grammar takes notice of. Where it allows a separator before the first of
several, one that writes nothing there is passed over. -/
def noticed : List TypeReference → List TypeReference
  | first :: second :: rest =>
    if first.tokens = [] then second :: rest else first :: second :: rest
  | types => types

/-- The first name and the others, where the first reference is not passed over. -/
theorem yields_firstName (hs : separator ∈ [.ampersand, .pipe]) (type : TypeReference)
    (more : List TypeReference) {lexemes others rest : List Lexeme}
    (hl : lexemes.map (·.token) = type.tokens)
    (hl' : others.map (·.token) = moreTokens separator more) (hrest : ListNext rest) :
    Yields (do
      let first ← Parser.name what
      let rest ← Parser.repeated (Parser.punct? separator) (Parser.name what)
      return first :: rest) (lexemes ++ (others ++ rest)) fun _ left =>
        ((∀ t ∈ type :: more, t.endName?.isSome) ∧ left = rest) ∨ Astray left := by
  refine (yields_referenceName type hl).bind fun name left hleft => ?_
  have hloop : Yields (Parser.repeated (Parser.punct? separator) (Parser.name what)) left
      fun _ left => ((∀ t ∈ type :: more, t.endName?.isSome) ∧ left = rest) ∨ Astray left :=
    yields_afterName hs hl' hrest (yields_names hs more left.length hl' hrest) hleft
  exact hloop.bind fun names left hleft => yields_pure hleft

/-- No separator comes first, unless the first of several references writes nothing. -/
theorem next_ne_separator (hs : separator ∈ [.ampersand, .pipe]) {type : TypeReference}
    {more : List TypeReference} (hskip : ¬ (type.tokens = [] ∧ more ≠ []))
    {first last rest : List Lexeme} (hfirst : first.map (·.token) = type.tokens)
    (hlast : last.map (·.token) = moreTokens separator more) (hrest : ListNext rest) :
    next (first ++ (last ++ rest)) ≠ some (.punct separator) := by
  rcases type.tokens_cases with h | ⟨p, ts, h, hp⟩ | ⟨name, ts, h, -⟩
  · have hmore : more = [] := not_not.mp fun hmore => hskip ⟨h, hmore⟩
    rw [hmore] at hlast
    rw [List.map_eq_nil_iff.mp (hfirst.trans h), List.map_eq_nil_iff.mp hlast]
    exact hrest.next_ne hs
  · rw [next_of_map (hfirst.trans h)]
    intro e
    cases e
    simp only [List.mem_cons, List.not_mem_nil, or_false] at hs hp
    rcases hs with rfl | rfl <;> simp at hp
  · rw [next_of_map (hfirst.trans h)]
    simp

theorem attempts_separated (hs : separator ∈ [.ampersand, .pipe]) (type : TypeReference)
    (more : List TypeReference) :
    Attempts (Parser.separated separator (Parser.name what))
      (type.tokens ++ moreTokens separator more) ListNext Astray
      (∀ t ∈ noticed (type :: more), t.endName?.isSome) := by
  intro lexemes rest hl hrest
  obtain ⟨first, last, rfl, hfirst, hlast⟩ := List.map_eq_append_iff.mp hl
  rw [List.append_assoc]
  unfold Parser.separated
  by_cases hskip : type.tokens = [] ∧ more ≠ []
  · -- The separator of the second reference is read as the one before the first.
    obtain ⟨hnone, hmore⟩ := hskip
    rw [hnone] at hfirst
    obtain ⟨second, others, rfl⟩ := List.exists_cons_of_ne_nil hmore
    have hnoticed : noticed (type :: second :: others) = second :: others := by
      rw [noticed, if_pos hnone]
    rw [moreTokens, List.flatMap_cons] at hlast
    obtain ⟨⟨token, flag⟩, tail, rfl, rfl, htail⟩ := List.map_eq_cons_iff.mp hlast
    obtain ⟨named, final, rfl, hnamed, hfinal⟩ := List.map_eq_append_iff.mp htail
    have hpunct : Parser.punct? separator
        (first ++ (⟨.punct separator, flag⟩ :: (named ++ final) ++ rest)) =
          .ok (true, named ++ (final ++ rest)) := by
      rw [List.map_eq_nil_iff.mp hfirst, List.nil_append, ← List.append_assoc]
      exact takes_punct? separator [_] _ rfl trivial
    rw [hnoticed]
    exact Yields.of_ok hpunct (yields_firstName hs second others hnamed hfinal hrest)
  · have hnoticed : noticed (type :: more) = type :: more := by
      cases more with
      | nil => rfl
      | cons second others => rw [noticed, if_neg fun h => hskip ⟨h, by simp⟩]
    have hpunct : Parser.punct? separator (first ++ (last ++ rest)) =
        .ok (false, first ++ (last ++ rest)) := by
      apply takes_no_punct? separator [] _ rfl
      simpa [notPunct] using next_ne_separator hs hskip hfirst hlast hrest
    rw [hnoticed]
    exact Yields.of_ok hpunct (yields_firstName hs type more hfirst hlast hrest)

end Lists

theorem attempts_interfaces (types : List TypeReference) :
    Attempts Parser.interfaces (referenceTokens (.name "implements") .ampersand types) ListNext
      Astray (∀ t ∈ noticed types, t.endName?.isSome) := by
  cases types with
  | nil =>
    have hnone : Takes Parser.interfaces []
        (fun t? => notPunct [.ampersand] t? ∧ t? ≠ some (.name "implements")) [] :=
      takes_interfaces []
    refine (hnone.attempts fun rest hrest => ⟨?_, ?_⟩).imp fun _ => by simp [noticed]
    · simpa [notPunct] using @ListNext.next_ne .ampersand (by simp) rest hrest
    · rcases hrest with h | h
      · simp [h]
      · exact h.outside.2
  | cons type types =>
    have hlist := @attempts_separated .ampersand "an interface name" (by simp) type types
    have hall : Attempts Parser.interfaces
        ([.name "implements"] ++ (type.tokens ++ moreTokens .ampersand types)) ListNext Astray
        (∀ t ∈ noticed (type :: types), t.endName?.isSome) :=
      (takes_keyword? "implements").before hlist fun _ _ _ _ => trivial
    exact hall

theorem attempts_members (types : List TypeReference) :
    Attempts Parser.members (referenceTokens (.punct .equals) .pipe types) Boundary Astray
      (∀ t ∈ noticed types, t.endName?.isSome) := by
  cases types with
  | nil =>
    have hnone : Takes Parser.members [] (notPunct [.equals, .pipe]) [] := takes_members []
    exact (hnone.attempts fun rest hrest => hrest.outside.notPunct _).imp fun _ => by simp [noticed]
  | cons type types =>
    have hlist := @attempts_separated .pipe "a type name" (by simp) type types
    have hall : Attempts Parser.members
        ([.punct .equals] ++ (type.tokens ++ moreTokens .pipe types)) Boundary Astray
        (∀ t ∈ noticed (type :: types), t.endName?.isSome) := by
      refine (takes_punct? .equals).before ?_ fun _ _ _ _ => trivial
      exact fun lexemes rest hl hrest => hlist lexemes rest hl (.inr hrest)
    exact hall

end MockGraph.Introspection
