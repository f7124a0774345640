import MockGraph.Proofs.Syntax.Parsing

/-!
# `Proofs/Syntax/Definitions`: parsing definitions of a type system

The rules of `Proofs/Syntax/Parsing` put together for the productions that define types: members of
types with their descriptions and directives, the six kinds of types, the roots of a schema, and
whole documents.

Commas matter in one place of a definition, between its description and its keyword. So a definition
is treated with its raw tokens (`TakesRaw`), and everything inside it with the `significant` ones.
-/

set_option autoImplicit false

namespace MockGraph.Syntax

/-! ## 1. Commas -/

/-- The tokens without the commas. -/
def significant (raw : List Token) : List Token := raw.filter (· ≠ .comma)

@[simp] theorem significant_nil : significant [] = [] := rfl

@[simp] theorem significant_append (raw more : List Token) :
    significant (raw ++ more) = significant raw ++ significant more := List.filter_append ..

@[simp] theorem significant_cons {token : Token} (h : token ≠ .comma) (raw : List Token) :
    significant (token :: raw) = token :: significant raw := by
  simp [significant, h]

@[simp] theorem significant_flatMap {α : Type} (chunks : List α) (raw : α → List Token) :
    significant (chunks.flatMap raw) = chunks.flatMap fun chunk => significant (raw chunk) := by
  induction chunks with
  | nil => rfl
  | cons chunk chunks ih => rw [List.flatMap_cons, significant_append, ih, List.flatMap_cons]

theorem map_token_ofTokens (flag : Bool) (raw : List Token) :
    (Lexeme.ofTokens flag raw).map (·.token) = significant raw := by
  fun_induction Lexeme.ofTokens flag raw with
  | case1 => rfl
  | case2 flag rest ih => exact ih
  | case3 flag token rest hne ih =>
    rw [List.map_cons, ih, significant_cons fun h => hne h]

theorem ofTokens_append (flag : Bool) (raw more : List Token) :
    ∃ flag', Lexeme.ofTokens flag (raw ++ more) =
      Lexeme.ofTokens flag raw ++ Lexeme.ofTokens flag' more := by
  fun_induction Lexeme.ofTokens flag raw with
  | case1 flag => exact ⟨flag, rfl⟩
  | case2 flag rest ih => exact ih
  | case3 flag token rest hne ih =>
    obtain ⟨flag', h⟩ := ih
    refine ⟨flag', ?_⟩
    rw [List.cons_append, Lexeme.ofTokens.eq_3 _ _ _ hne, h, List.cons_append]

/-! ## 2. Directives and descriptions -/

theorem takes_argument {depth : Nat} {tokens : List Token} {value : Value} (name : Name)
    (h : Literal depth tokens value) :
    Takes (Parser.argument true depth) (.name name :: .punct .colon :: tokens) anything
      ⟨name, value⟩ :=
  (takes_objectField name (takes_value h)).map fun field : Name × Value =>
    Argument.mk field.1 field.2

theorem takes_directive {depth : Nat} {chunks : List (List Token × Argument)} (name : Name)
    (h : ∀ chunk ∈ chunks, ∃ ts, Literal depth ts chunk.2.value ∧
      chunk.1 = .name chunk.2.name :: .punct .colon :: ts) :
    Takes (Parser.directive true depth)
      (.punct .atSign :: .name name :: inside .openParen .closeParen chunks)
      (notPunct [.openParen]) ⟨name, chunks.map (·.2)⟩ := by
  have harguments : Takes (Parser.arguments true depth) (inside .openParen .closeParen chunks)
      (notPunct [.openParen]) (chunks.map (·.2)) := by
    refine takes_enclosed? (fun chunk hc => ?_) (fun chunk hc => ?_) (anything_holds _)
    · obtain ⟨ts, hvalue, hchunk⟩ := h chunk hc
      rw [hchunk]
      exact takes_argument chunk.2.name hvalue
    · obtain ⟨ts, -, hchunk⟩ := h chunk hc
      exact ⟨_, _, hchunk, by simp, trivial⟩
  have hnamed : Takes (do
      let directive ← Parser.name "a directive name"
      return (⟨directive, ← Parser.arguments true depth⟩ : Directive))
        ([.name name] ++ inside .openParen .closeParen chunks) (notPunct [.openParen])
        ⟨name, chunks.map (·.2)⟩ :=
    (takes_name name "a directive name").bind (harguments.map (Directive.mk name))
      fun _ _ => trivial
  exact (takes_punct .atSign).bind hnamed fun _ _ => trivial

/-- No member of a type goes on with what comes next. -/
def apart : Option Token → Prop := notPunct [.bang, .equals, .atSign, .openParen]

/-- The tokens of some directives, which begin with the mark of one. -/
structure Annotates (tokens : List Token) (directives : List Directive) : Prop where
  takes : Takes (Parser.directives true) tokens apart directives
  head : tokens = [] ∨ ∃ rest, tokens = .punct .atSign :: rest

theorem apart_mono {ps : List Punctuator} (h : ∀ p ∈ ps, p ∈ [.bang, .equals, .atSign, .openParen])
    {t? : Option Token} (ht : apart t?) : notPunct ps t? :=
  fun p hp => ht p (h p hp)

theorem takes_no_directives : Takes (Parser.directives true) [] (notPunct [.atSign]) [] :=
  @takes_repeated _ _ _ anything _ [] (by simp) (by simp) (takes_not_atPunct .atSign)
    fun _ _ => trivial

theorem annotates_nil : Annotates [] [] :=
  ⟨takes_no_directives.mono fun _ => apart_mono (by simp), .inl rfl⟩

theorem annotates_directive {chunks : List (List Token × Argument)} (name : Name)
    (h : ∀ chunk ∈ chunks, ∃ ts, Literal maxNesting ts chunk.2.value ∧
      chunk.1 = .name chunk.2.name :: .punct .colon :: ts) :
    Annotates (.punct .atSign :: .name name :: inside .openParen .closeParen chunks)
      [⟨name, chunks.map (·.2)⟩] := by
  refine ⟨?_, .inr ⟨_, rfl⟩⟩
  have hround : TakesRound (Parser.atPunct .atSign) (Parser.directive true maxNesting)
      (.punct .atSign :: .name name :: inside .openParen .closeParen chunks) (notPunct [.openParen])
      ⟨name, chunks.map (·.2)⟩ :=
    (takes_atPunct .atSign).round_of_ahead (takes_directive name h) fun _ _ => rfl
  have hall : Takes (Parser.directives true)
      ([(.punct .atSign :: .name name :: inside .openParen .closeParen chunks,
        (⟨name, chunks.map (·.2)⟩ : Directive))].flatMap (·.1)) apart
      [⟨name, chunks.map (·.2)⟩] := by
    have hstop : Takes (Parser.atPunct .atSign) [] apart false :=
      (takes_not_atPunct .atSign).mono fun _ => apart_mono (by simp)
    have hending : ∀ t, apart t → notPunct [.openParen] t := fun _ => apart_mono (by simp)
    refine takes_repeated (fun chunk hc => ?_) (fun chunk hc => ?_) hstop hending
    · rw [List.mem_singleton.mp hc]
      exact hround
    · rw [List.mem_singleton.mp hc]
      exact ⟨_, _, rfl, by simp [notPunct]⟩
  rwa [List.flatMap_singleton] at hall

theorem Annotates.after {tokens : List Token} {directives : List Directive}
    (h : Annotates tokens directives) {t? : Option Token} (ht : apart t?) :
    notPunct [.bang, .equals] (tokens.head?.or t?) := by
  obtain rfl | ⟨rest, rfl⟩ := h.head
  · exact apart_mono (by simp) ht
  · simp [notPunct]

def descriptionTokens : Option String → List Token
  | none => []
  | some text => [.string text]

theorem takes_description? (description : Option String) :
    Takes Parser.description? (descriptionTokens description) (∃ word, · = some (.name word))
      description := by
  intro lexemes rest hl hn
  cases description with
  | some text =>
    obtain ⟨flag, rfl⟩ := singleton_of_map hl
    rfl
  | none =>
    obtain ⟨word, hword⟩ := hn
    rw [List.map_eq_nil_iff.mp hl, List.nil_append]
    cases rest with
    | nil => cases hword
    | cons lexeme rest =>
      obtain ⟨token, flag⟩ := lexeme
      cases Option.some.inj hword
      rfl

/-! ## 3. Members of types -/

/-- The tokens of a default value, if there is one. -/
inductive Defaults : List Token → Option Value → Prop where
  | none : Defaults [] none
  | some {tokens : List Token} {value : Value} (h : Literal maxNesting tokens value) :
      Defaults (.punct .equals :: tokens) (some value)

section Members

variable {tokens : List Token} {directives : List Directive} {type : TypeRef}

/-- A parser that begins with a description and a name. -/
theorem takes_described {α : Type} {rest : Option String → Name → Parser α} {a : α}
    {follow : Option Token → Prop} (description : Option String) (name : Name) (what : String)
    (h : Takes (rest description name) tokens follow a) :
    Takes (do rest (← Parser.description?) (← Parser.name what))
      (descriptionTokens description ++ .name name :: tokens) follow a := by
  have hnamed : Takes (do rest description (← Parser.name what)) ([.name name] ++ tokens) follow
      a :=
    (takes_name name what).bind h fun _ _ => trivial
  exact (takes_description? description).bind hnamed fun _ _ => ⟨name, rfl⟩

theorem takes_fieldDefinition (description : Option String) (name : Name)
    (ht : type.lists ≤ maxNesting) (hd : Annotates tokens directives) :
    Takes Parser.fieldDefinition
      (descriptionTokens description ++ .name name :: .punct .colon :: (type.tokens ++ tokens))
      apart ⟨description, name, [], type, directives⟩ := by
  have htyped : Takes (do
      let type ← Parser.typeRef
      return (⟨description, name, [], type, ← Parser.directives true⟩ : FieldDefinition))
        (type.tokens ++ tokens) apart ⟨description, name, [], type, directives⟩ :=
    (takes_typeRef ht).bind (hd.takes.map (FieldDefinition.mk description name [] type))
      fun _ h p hp => hd.after h p (by simp_all)
  have hcolon : Takes (do
      Parser.punct .colon
      let type ← Parser.typeRef
      return (⟨description, name, [], type, ← Parser.directives true⟩ : FieldDefinition))
        ([.punct .colon] ++ (type.tokens ++ tokens)) apart
        ⟨description, name, [], type, directives⟩ :=
    (takes_punct .colon).bind htyped fun _ _ => trivial
  have hno : Takes (Parser.enclosed? .openParen .closeParen Parser.inputValue) []
      (notPunct [.openParen]) [] :=
    @takes_enclosed? _ Parser.inputValue _ _ anything [] (by simp) (by simp) trivial
  have hfield : Takes (do
      let arguments ← Parser.enclosed? .openParen .closeParen Parser.inputValue
      Parser.punct .colon
      let type ← Parser.typeRef
      return (⟨description, name, arguments, type, ← Parser.directives true⟩ : FieldDefinition))
        ([] ++ ([.punct .colon] ++ (type.tokens ++ tokens))) apart
        ⟨description, name, [], type, directives⟩ := hno.bind hcolon fun _ _ => by simp [notPunct]
  exact takes_described description name "a field name" hfield

theorem takes_enumValue (description : Option String) {name : Name}
    (h : name ∉ ["true", "false", "null"]) (hd : Annotates tokens directives) :
    Takes Parser.enumValue (descriptionTokens description ++ .name name :: tokens) apart
      ⟨description, name, directives⟩ := by
  have hname : ["true", "false", "null"].contains name = false := by simpa using h
  have hrest := hd.takes.map (EnumValue.mk description name)
  refine takes_described description name "an enum value" ?_
  simp only [hname]
  exact hrest

theorem takes_default? {default : Option Value} (h : Defaults tokens default) :
    Takes Parser.default? tokens (notPunct [.equals]) default := by
  cases h with
  | none =>
    have hpure : Takes (pure none : Parser (Option Value)) [] (notPunct [.equals]) none :=
      (takes_pure none).mono fun _ _ => trivial
    exact (takes_no_punct? .equals).bind hpure fun _ ht => ht
  | @some tokens value h =>
    have hvalue : Takes (do return some (← Parser.valueAt true maxNesting)) tokens anything
        (some value) := (takes_value h).map some
    have hall : Takes Parser.default? ([.punct .equals] ++ tokens) anything (some value) :=
      (takes_punct? .equals).bind hvalue fun _ _ => trivial
    exact hall.mono fun _ _ => trivial

theorem Defaults.after {default : Option Value} (h : Defaults tokens default) {t? : Option Token}
    (ht : apart t?) : notPunct [.bang] (tokens.head?.or t?) := by
  cases h with
  | none => exact apart_mono (by simp) ht
  | some h => simp [notPunct]

theorem takes_inputValue (description : Option String) (name : Name) {default : Option Value}
    (ht : type.lists ≤ maxNesting) (hd : Defaults tokens default) :
    Takes Parser.inputValue
      (descriptionTokens description ++ .name name :: .punct .colon :: (type.tokens ++ tokens))
      apart ⟨description, name, type, default, []⟩ := by
  have hmarks : Takes (do
      return (⟨description, name, type, default, ← Parser.directives true⟩ : InputValue)) [] apart
        ⟨description, name, type, default, []⟩ :=
    annotates_nil.takes.map (InputValue.mk description name type default)
  have hdefault : Takes (do
      let default ← Parser.default?
      return (⟨description, name, type, default, ← Parser.directives true⟩ : InputValue))
        (tokens ++ []) apart ⟨description, name, type, default, []⟩ :=
    (takes_default? hd).bind hmarks fun _ => apart_mono (by simp)
  have htyped : Takes (do
      let type ← Parser.typeRef
      let default ← Parser.default?
      return (⟨description, name, type, default, ← Parser.directives true⟩ : InputValue))
        (type.tokens ++ (tokens ++ [])) apart ⟨description, name, type, default, []⟩ :=
    (takes_typeRef ht).bind hdefault fun _ h => by
      rw [List.append_nil]
      exact hd.after h
  have hcolon : Takes (do
      Parser.punct .colon
      let type ← Parser.typeRef
      let default ← Parser.default?
      return (⟨description, name, type, default, ← Parser.directives true⟩ : InputValue))
        ([.punct .colon] ++ (type.tokens ++ (tokens ++ []))) apart
        ⟨description, name, type, default, []⟩ :=
    (takes_punct .colon).bind htyped fun _ _ => trivial
  rw [List.append_nil] at hcolon
  exact takes_described description name "an argument or field name" hcolon

end Members

/-! ## 4. Definitions -/

/-- Nothing comes next, or what a definition begins with. -/
def outside (t? : Option Token) : Prop :=
  (∀ p, t? ≠ some (.punct p)) ∧ t? ≠ some (.name "implements")

theorem outside_none : outside none := by simp [outside]

theorem outside.notPunct {t? : Option Token} (h : outside t?) (ps : List Punctuator) :
    notPunct ps t? := fun p _ => h.1 p

/-- The tokens of names after a keyword or sign, with a punctuator between them. -/
def listing (first : Token) (separator : Punctuator) : List Name → List Token
  | [] => []
  | name :: rest => first :: .name name :: rest.flatMap fun name => [.punct separator, .name name]

theorem takes_interfaces (interfaces : List Name) :
    Takes Parser.interfaces (listing (.name "implements") .ampersand interfaces)
      (fun t? => notPunct [.ampersand] t? ∧ t? ≠ some (.name "implements")) interfaces := by
  cases interfaces with
  | nil =>
    have hpure : Takes (pure [] : Parser (List Name)) []
        (fun t? => notPunct [.ampersand] t? ∧ t? ≠ some (.name "implements")) [] :=
      (takes_pure []).mono fun _ _ => trivial
    exact (takes_no_keyword? "implements").bind hpure fun _ h => h.2
  | cons name rest =>
    have hnames := takes_separated .ampersand "an interface name" name rest
    have hall : Takes Parser.interfaces ([.name "implements"] ++ (.name name :: rest.flatMap
        fun name => [.punct .ampersand, .name name])) (notPunct [.ampersand]) (name :: rest) :=
      (takes_keyword? "implements").bind hnames fun _ _ => trivial
    exact hall.mono fun _ h => h.1

theorem takes_members (members : List Name) :
    Takes Parser.members (listing (.punct .equals) .pipe members) (notPunct [.equals, .pipe])
      members := by
  cases members with
  | nil =>
    have hpure : Takes (pure [] : Parser (List Name)) [] (notPunct [.equals, .pipe]) [] :=
      (takes_pure []).mono fun _ _ => trivial
    exact (takes_no_punct? .equals).bind hpure fun _ h p hp => h p (by simp_all)
  | cons name rest =>
    have hnames := takes_separated .pipe "a type name" name rest
    have hall : Takes Parser.members ([.punct .equals] ++ (.name name :: rest.flatMap
        fun name => [.punct .pipe, .name name])) (notPunct [.pipe]) (name :: rest) :=
      (takes_punct? .equals).bind hnames fun _ _ => trivial
    exact hall.mono fun _ h p hp => h p (by simp_all)

/-- Members of a type in braces. Each begins with a name or a string. -/
structure Entries {α : Type} (item : Parser α) (chunks : List (List Token × α)) : Prop where
  takes : ∀ chunk ∈ chunks, Takes item chunk.1 apart chunk.2
  head : ∀ chunk ∈ chunks, ∃ t ts, chunk.1 = t :: ts ∧ ∀ p, t ≠ .punct p

section Definitions

variable (description : Option String) (name : Name)

theorem takes_block {α : Type} {item : Parser α} {chunks : List (List Token × α)}
    (h : Entries item chunks) :
    Takes (Parser.enclosed? .openBrace .closeBrace item) (inside .openBrace .closeBrace chunks)
      (notPunct [.openBrace]) (chunks.map (·.2)) := by
  refine takes_enclosed? h.takes (fun chunk hc => ?_) (by simp [apart, notPunct])
  obtain ⟨t, ts, ht, hp⟩ := h.head chunk hc
  exact ⟨t, ts, ht, hp .closeBrace, fun p _ e => hp p (Option.some.inj e)⟩

/-- A type whose body is made from what follows the directives. -/
theorem takes_bare {β : Type} {inner : Parser β} {tokens : List Token} {b : β}
    (build : β → TypeBody) (h : Takes inner tokens outside b)
    (hf : ∀ t, outside t → notPunct [.atSign] (tokens.head?.or t)) :
    Takes (do
      let type ← Parser.name "a type name"
      let directives ← Parser.directives true
      return some (⟨description, type, directives, build (← inner)⟩ : TypeDefinition))
      (.name name :: tokens) outside (some ⟨description, name, [], build b⟩) := by
  have hbody : Takes (do
      return some (⟨description, name, [], build (← inner)⟩ : TypeDefinition)) tokens outside
        (some ⟨description, name, [], build b⟩) :=
    h.map fun b => some (TypeDefinition.mk description name [] (build b))
  have hrest : Takes (do
      let directives ← Parser.directives true
      return some (⟨description, name, directives, build (← inner)⟩ : TypeDefinition))
      ([] ++ tokens) outside (some ⟨description, name, [], build b⟩) :=
    takes_no_directives.bind hbody hf
  exact (takes_name name "a type name").bind hrest fun _ _ => trivial

/-- The tokens after the name of a type, by its keyword. -/
inductive Bodies : String → List Token → TypeBody → Prop where
  | scalar : Bodies "scalar" [] .scalar
  | object {chunks} (interfaces : List Name) (h : Entries Parser.fieldDefinition chunks) :
      Bodies "type"
        (listing (.name "implements") .ampersand interfaces ++
          inside .openBrace .closeBrace chunks)
        (.object interfaces (chunks.map (·.2)))
  | interface {chunks} (interfaces : List Name) (h : Entries Parser.fieldDefinition chunks) :
      Bodies "interface"
        (listing (.name "implements") .ampersand interfaces ++
          inside .openBrace .closeBrace chunks)
        (.interface interfaces (chunks.map (·.2)))
  | union (members : List Name) :
      Bodies "union" (listing (.punct .equals) .pipe members) (.union members)
  | enum {chunks} (h : Entries Parser.enumValue chunks) :
      Bodies "enum" (inside .openBrace .closeBrace chunks) (.enum (chunks.map (·.2)))
  | inputObject {chunks} (h : Entries Parser.inputValue chunks) :
      Bodies "input" (inside .openBrace .closeBrace chunks) (.inputObject (chunks.map (·.2)))

theorem inside_head {α : Type} {opening closing : Punctuator} {chunks : List (List Token × α)}
    {t? : Option Token} {follow : Option Token → Prop} (h : follow t?)
    (ho : follow (some (.punct opening))) :
    follow ((inside opening closing chunks).head?.or t?) := by
  cases chunks with
  | nil => exact h
  | cons chunk chunks => exact ho

theorem takes_fielded {chunks : List (List Token × FieldDefinition)} (interfaces : List Name)
    (build : List Name → List FieldDefinition → TypeBody)
    (h : Entries Parser.fieldDefinition chunks) :
    Takes (do
      let type ← Parser.name "a type name"
      let interfaces ← Parser.interfaces
      let directives ← Parser.directives true
      let fields ← Parser.fields
      return some (⟨description, type, directives, build interfaces fields⟩ : TypeDefinition))
      (.name name :: (listing (.name "implements") .ampersand interfaces ++
        inside .openBrace .closeBrace chunks)) outside
      (some ⟨description, name, [], build interfaces (chunks.map (·.2))⟩) := by
  have hfields : Takes (do
      let fields ← Parser.fields
      return some (⟨description, name, [], build interfaces fields⟩ : TypeDefinition))
        (inside .openBrace .closeBrace chunks) (notPunct [.openBrace])
        (some ⟨description, name, [], build interfaces (chunks.map (·.2))⟩) :=
    (takes_block h).map fun fields =>
      some (TypeDefinition.mk description name [] (build interfaces fields))
  have hmarks : Takes (do
      let directives ← Parser.directives true
      let fields ← Parser.fields
      return some (⟨description, name, directives, build interfaces fields⟩ : TypeDefinition))
        ([] ++ inside .openBrace .closeBrace chunks) outside
        (some ⟨description, name, [], build interfaces (chunks.map (·.2))⟩) :=
    takes_no_directives.bind (hfields.mono fun _ ht => ht.notPunct _)
      fun _ ht => inside_head (ht.notPunct _) (by simp [notPunct])
  have hkeyword : ∀ t : Option Token, t ≠ some (.name "implements") →
      (inside .openBrace .closeBrace chunks).head?.or t ≠ some (.name "implements") := by
    intro t ht
    cases chunks with
    | nil => exact ht
    | cons => simp [inside]
  have hinterfaces : Takes (do
      let interfaces ← Parser.interfaces
      let directives ← Parser.directives true
      let fields ← Parser.fields
      return some (⟨description, name, directives, build interfaces fields⟩ : TypeDefinition))
        (listing (.name "implements") .ampersand interfaces ++
          ([] ++ inside .openBrace .closeBrace chunks)) outside
        (some ⟨description, name, [], build interfaces (chunks.map (·.2))⟩) :=
    (takes_interfaces interfaces).bind hmarks fun _ ht =>
      ⟨inside_head (ht.notPunct _) (by simp [notPunct]), hkeyword _ ht.2⟩
  exact (takes_name name "a type name").bind hinterfaces fun _ _ => trivial

/-- A definition is read after its keyword. -/
theorem takes_typeDefinition {word : String} {tokens : List Token} {body : TypeBody}
    (h : Bodies word tokens body) :
    Takes (Parser.typeDefinition description word) (.name name :: tokens) outside
      (some ⟨description, name, [], body⟩) := by
  cases h with
  | scalar =>
    have hmarks : Takes (do
        return some (⟨description, name, ← Parser.directives true, .scalar⟩ : TypeDefinition))
          [] (notPunct [.atSign]) (some ⟨description, name, [], .scalar⟩) :=
      takes_no_directives.map fun directives =>
        some (TypeDefinition.mk description name directives .scalar)
    exact (takes_name name "a type name").bind (hmarks.mono fun _ ht => ht.notPunct _)
      fun _ _ => trivial
  | object interfaces h => exact takes_fielded description name interfaces .object h
  | interface interfaces h => exact takes_fielded description name interfaces .interface h
  | union members =>
    have hmembers := (takes_members members).mono fun _ (ht : outside _) => ht.notPunct _
    refine takes_bare description name .union hmembers fun t ht => ?_
    cases members with
    | nil => exact ht.notPunct _
    | cons => simp [listing, notPunct]
  | enum h =>
    have hvalues := (takes_block h).mono fun _ (ht : outside _) => ht.notPunct _
    exact takes_bare description name .enum hvalues
      fun _ ht => inside_head (ht.notPunct _) (by simp [notPunct])
  | inputObject h =>
    have hfields := (takes_block h).mono fun _ (ht : outside _) => ht.notPunct _
    exact takes_bare description name .inputObject hfields
      fun _ ht => inside_head (ht.notPunct _) (by simp [notPunct])

end Definitions

theorem takes_root {word : String} {kind : OperationKind}
    (h : OperationKind.ofKeyword? word = some kind) (name : Name) :
    Takes Parser.root [.name word, .punct .colon, .name name] anything (some (kind, name)) := by
  have hname : Takes (do
      let type? ← Parser.name?
      return type?.map (kind, ·)) [.name name] anything (some (kind, name)) :=
    (takes_name? name).map fun type? : Option Name => type?.map (kind, ·)
  have hcolon : Takes (do
      Parser.punct .colon
      let type? ← Parser.name?
      return type?.map (kind, ·)) ([.punct .colon] ++ [.name name]) anything (some (kind, name)) :=
    (takes_punct .colon).bind hname fun _ _ => trivial
  refine (takes_name word "a kind of operation").bind ?_ fun _ _ => trivial
  simp only [h]
  exact hcolon

/-! ## 5. Documents -/

/-- A parser takes lexemes with these raw tokens in front of anything that satisfies `follow`. -/
def TakesRaw {α : Type} (parser : Parser α) (raw : List Token) (follow : Option Token → Prop)
    (a : α) : Prop :=
  ∀ flag rest, follow (next rest) → parser (Lexeme.ofTokens flag raw ++ rest) = .ok (a, rest)

theorem Takes.raw {α : Type} {parser : Parser α} {raw : List Token}
    {follow : Option Token → Prop} {a : α} (h : Takes parser (significant raw) follow a) :
    TakesRaw parser raw follow a :=
  fun flag rest hn => h _ rest (map_token_ofTokens flag raw) hn

def typeWords : List String := ["scalar", "type", "interface", "union", "enum", "input"]

theorem Bodies.mem {word : String} {tokens : List Token} {body : TypeBody}
    (h : Bodies word tokens body) : word ∈ typeWords := by
  cases h <;> simp [typeWords]

theorem ne_of_typeWords {word : String} (h : word ∈ typeWords) :
    word ≠ "schema" ∧ word ≠ "directive" := by
  constructor
  · rintro rfl
    simp [typeWords] at h
  · rintro rfl
    simp [typeWords] at h

/-- A word that is none of those that other definitions begin with. -/
theorem undescribed_of_typeWords {word : String} (h : word ∈ typeWords) :
    Parser.undescribed word = Parser.typeSystemDefinition none word := by
  simp only [typeWords, List.mem_cons, List.not_mem_nil, or_false] at h
  rcases h with rfl | rfl | rfl | rfl | rfl | rfl <;> rfl

theorem takes_typeSystemDefinition {description : Option String} {word : String} {name : Name}
    {tokens : List Token} {body : TypeBody} (h : Bodies word tokens body) :
    Takes (Parser.typeSystemDefinition description word) (.name name :: tokens) outside
      (.type ⟨description, name, [], body⟩) := by
  obtain ⟨hschema, hdirective⟩ := ne_of_typeWords h.mem
  have hpure : Takes (pure (Definition.type ⟨description, name, [], body⟩)) [] outside
      (Definition.type ⟨description, name, [], body⟩) := (takes_pure _).mono fun _ _ => trivial
  unfold Parser.typeSystemDefinition
  rw [if_neg hschema, if_neg hdirective, ← List.append_nil (Token.name name :: tokens)]
  exact (takes_typeDefinition description name h).bind hpure fun _ ht => ht

/-- No comma stands between a description and the keyword. -/
theorem takesRaw_definition {description : Option String} {word : String} {name : Name}
    {raw : List Token} {body : TypeBody} (h : Bodies word (significant raw) body) :
    TakesRaw Parser.definition
      (descriptionTokens description ++ .name word :: .name name :: raw) outside
      (.type ⟨description, name, [], body⟩) := by
  intro flag rest hn
  have hrest : Parser.typeSystemDefinition description word
      (Lexeme.ofTokens false (.name name :: raw) ++ rest) =
        .ok (.type ⟨description, name, [], body⟩, rest) := by
    refine (takes_typeSystemDefinition h) _ rest ?_ hn
    rw [map_token_ofTokens, significant_cons (by simp)]
  cases description with
  | none =>
    rw [← undescribed_of_typeWords h.mem] at hrest
    exact hrest
  -- The keyword stands right after the string, so no comma is noted in front of it.
  | some text => exact hrest

theorem ofKeyword?_keyword (kind : OperationKind) :
    OperationKind.ofKeyword? kind.keyword = some kind := by
  cases kind <;> rfl

/-- The tokens of an entry for a root type, and what they mean. -/
def rootChunk (root : OperationKind × Name) : List Token × Option (OperationKind × Name) :=
  ([.name root.1.keyword, .punct .colon, .name root.2], some root)

theorem takes_schema (roots : List (OperationKind × Name)) :
    Takes Parser.definition
      (.name "schema" :: inside .openBrace .closeBrace (roots.map rootChunk)) outside
      (.schema ⟨[], roots⟩) := by
  have hentries : Takes (Parser.enclosed? .openBrace .closeBrace Parser.root)
      (inside .openBrace .closeBrace (roots.map rootChunk)) (notPunct [.openBrace])
      ((roots.map rootChunk).map (·.2)) := by
    refine takes_enclosed? (fun chunk hc => ?_) (fun chunk hc => ?_) (anything_holds _)
    · obtain ⟨root, -, rfl⟩ := List.mem_map.mp hc
      exact takes_root (ofKeyword?_keyword root.1) root.2
    · obtain ⟨root, -, rfl⟩ := List.mem_map.mp hc
      exact ⟨_, _, rfl, by simp, trivial⟩
  have hroots : ((roots.map rootChunk).map (·.2)).filterMap id = roots := by
    simp [List.filterMap_map, rootChunk, Function.comp_def]
  have hblock : Takes (do
      let roots ← Parser.enclosed? .openBrace .closeBrace Parser.root
      return Definition.schema ⟨[], roots.filterMap id⟩)
        (inside .openBrace .closeBrace (roots.map rootChunk)) outside (.schema ⟨[], roots⟩) := by
    have hall := hentries.map fun roots => Definition.schema ⟨[], roots.filterMap id⟩
    rw [hroots] at hall
    exact hall.mono fun _ ht => ht.notPunct _
  have hschema : Takes (Parser.typeSystemDefinition none "schema")
      ([] ++ inside .openBrace .closeBrace (roots.map rootChunk)) outside (.schema ⟨[], roots⟩) :=
    takes_no_directives.bind hblock fun _ ht => inside_head (ht.notPunct _) (by simp [notPunct])
  intro lexemes rest hl hn
  obtain ⟨⟨token, flag⟩, others, rfl, rfl, hothers⟩ := List.map_eq_cons_iff.mp hl
  exact hschema others rest hothers hn

/-- A definition with its raw tokens. It begins with a keyword or a string. -/
structure Defines (chunk : List Token × Definition) : Prop where
  takes : TakesRaw Parser.definition chunk.1 outside chunk.2
  head : ∃ t ts, chunk.1 = t :: ts ∧ t ≠ .comma ∧ outside (some t)

theorem repeats_definitions {chunks : List (List Token × Definition)}
    (h : ∀ chunk ∈ chunks, Defines chunk) (flag : Bool) :
    Repeats (do return (← Parser.peek).isSome) Parser.definition
      (Lexeme.ofTokens flag (chunks.flatMap (·.1))) (chunks.map (·.2)) [] := by
  induction chunks generalizing flag with
  | nil => exact .stop rfl
  | cons chunk chunks ih =>
    have hrest : ∀ other ∈ chunks, Defines other := fun c hc => h c (List.mem_cons_of_mem _ hc)
    have hnext : ∀ flag, outside (next (Lexeme.ofTokens flag (chunks.flatMap (·.1)))) := by
      intro flag
      cases chunks with
      | nil => exact outside_none
      | cons other chunks =>
        obtain ⟨t, ts, ht, hcomma, hout⟩ := (hrest other List.mem_cons_self).head
        rw [List.flatMap_cons, ht, List.cons_append, Lexeme.ofTokens.eq_3 _ _ _ hcomma]
        exact hout
    obtain ⟨t, ts, ht, hcomma, -⟩ := (h chunk List.mem_cons_self).head
    obtain ⟨flag', hsplit⟩ := ofTokens_append flag chunk.1 (chunks.flatMap (·.1))
    have hhead : Lexeme.ofTokens flag chunk.1 = ⟨t, flag⟩ :: Lexeme.ofTokens false ts := by
      rw [ht, Lexeme.ofTokens.eq_3 _ _ _ hcomma]
    have htake := (h chunk List.mem_cons_self).takes flag _ (hnext flag')
    rw [List.flatMap_cons, hsplit, List.map_cons]
    refine .round ?_ htake ?_ (ih hrest flag')
    · rw [hhead]
      rfl
    · rw [hhead]
      simp only [List.length_append, List.length_cons]
      omega

/-- Definitions one after the other are a document. -/
theorem ofLexemes_definitions {chunks : List (List Token × Definition)} (hne : chunks ≠ [])
    (h : ∀ chunk ∈ chunks, Defines chunk) (flag : Bool) :
    Document.ofLexemes (Lexeme.ofTokens flag (chunks.flatMap (·.1))) = .ok (chunks.map (·.2)) := by
  have hall := repeats_definitions h flag
  cases chunks with
  | nil => exact absurd rfl hne
  | cons chunk chunks =>
    rw [List.map_cons] at hall
    cases hall with
    | @round _ between after _ _ _ hm hi hl hr =>
      -- Looking at the next token leaves it in place.
      obtain ⟨-, rfl⟩ := Prod.mk.inj (Except.ok.inj hm)
      have hdocument : Parser.document (Lexeme.ofTokens flag ((chunk :: chunks).flatMap (·.1))) =
          .ok (chunk.2 :: chunks.map (·.2), []) := by
        change (Parser.definition _ >>= fun found => Parser.repeated _ _ found.2 >>= fun more =>
          Except.ok (found.1 :: more.1, more.2)) = _
        rw [hi]
        change (Parser.repeated (do return (← Parser.peek).isSome) Parser.definition after >>=
          fun more => Except.ok (chunk.2 :: more.1, more.2)) = _
        rw [hr.repeated]
        rfl
      simp only [Document.ofLexemes, hdocument]
      rfl

end MockGraph.Syntax
