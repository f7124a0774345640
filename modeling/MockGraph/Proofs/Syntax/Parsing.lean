import MockGraph.Syntax.Parser

/-!
# `Proofs/Syntax/Parsing`: what parsers take

`Takes parser tokens follow a` says that a parser takes lexemes with these tokens and gives `a`, if
what comes next satisfies `follow`. A parser that looks ahead needs to know what comes next; most do
not look, and their `follow` is `anything`. Commas in front of a lexeme make no difference to any
parser that is treated here.

The rules follow the parsers: one for a sequence (`Takes.bind`), one for repetition
(`takes_repeated`), and one for each production. `Literal` is the grammar of constant values,
written down without the parser, and `takes_value` says that the parser reads it.
-/

set_option autoImplicit false

namespace MockGraph.Syntax

/-! ## 1. Taking tokens -/

def next (lexemes : List Lexeme) : Option Token := lexemes.head?.map (·.token)

/-- A parser takes lexemes with these tokens in front of anything that satisfies `follow`. -/
def Takes {α : Type} (parser : Parser α) (tokens : List Token) (follow : Option Token → Prop)
    (a : α) : Prop :=
  ∀ lexemes rest, lexemes.map (·.token) = tokens → follow (next rest) →
    parser (lexemes ++ rest) = .ok (a, rest)

def anything (_ : Option Token) : Prop := True

theorem anything_holds (t? : Option Token) : anything t? := trivial

/-- None of these punctuators comes next. -/
def notPunct (punctuators : List Punctuator) (token? : Option Token) : Prop :=
  ∀ p ∈ punctuators, token? ≠ some (.punct p)

section Takes

variable {α β : Type} {parser : Parser α} {tokens more : List Token}
  {follow follow' : Option Token → Prop} {a : α} {b : β}

theorem next_append {lexemes : List Lexeme} (h : lexemes.map (·.token) = tokens)
    (rest : List Lexeme) : next (lexemes ++ rest) = tokens.head?.or (next rest) := by
  subst h
  cases lexemes with
  | nil => simp [next]
  | cons lexeme lexemes => rfl

theorem Takes.mono (h : Takes parser tokens follow a) (hf : ∀ t, follow' t → follow t) :
    Takes parser tokens follow' a :=
  fun lexemes rest hl hn => h lexemes rest hl (hf _ hn)

/-- One parser takes the first tokens, another one the others. -/
theorem Takes.bind {after : α → Parser β} (h : Takes parser tokens follow a)
    (h' : Takes (after a) more follow' b) (hf : ∀ t, follow' t → follow (more.head?.or t)) :
    Takes (parser >>= after) (tokens ++ more) follow' b := by
  intro lexemes rest hl hn
  obtain ⟨first, last, rfl, hfirst, hlast⟩ := List.map_eq_append_iff.mp hl
  have hnext : follow (next (last ++ rest)) := by
    rw [next_append hlast]
    exact hf _ hn
  have hone := h first (last ++ rest) hfirst hnext
  rw [List.append_assoc]
  change (parser (first ++ (last ++ rest)) >>= fun found => after found.1 found.2) = _
  rw [hone]
  exact h' last rest hlast hn

theorem takes_pure (a : α) : Takes (pure a) [] anything a := by
  intro lexemes rest hl _
  rw [List.map_eq_nil_iff.mp hl]
  rfl

/-- What a parser gives may be changed. -/
theorem Takes.map (f : α → β) (h : Takes parser tokens follow a) :
    Takes (parser >>= fun a => pure (f a)) tokens follow (f a) := by
  have hpure : Takes (pure (f a)) [] follow (f a) := (takes_pure (f a)).mono fun _ _ => trivial
  have hall : Takes (parser >>= fun a => pure (f a)) (tokens ++ []) follow (f a) :=
    h.bind hpure fun t ht => ht
  rwa [List.append_nil] at hall

end Takes

/-! ## 2. Single tokens -/

section Tokens

variable (p : Punctuator) (word what : String)

theorem singleton_of_map {lexemes : List Lexeme} {token : Token}
    (h : lexemes.map (·.token) = [token]) : ∃ flag, lexemes = [⟨token, flag⟩] := by
  obtain ⟨⟨found, flag⟩, rest, rfl, rfl, hrest⟩ := List.map_eq_cons_iff.mp h
  rw [List.map_eq_nil_iff.mp hrest]
  exact ⟨flag, rfl⟩

theorem takes_punct : Takes (Parser.punct p) [.punct p] anything () := by
  intro lexemes rest hl _
  obtain ⟨flag, rfl⟩ := singleton_of_map hl
  simp [Parser.punct]

theorem takes_name : Takes (Parser.name what) [.name word] anything word := by
  intro lexemes rest hl _
  obtain ⟨flag, rfl⟩ := singleton_of_map hl
  rfl

theorem takes_name? : Takes Parser.name? [.name word] anything (some word) := by
  intro lexemes rest hl _
  obtain ⟨flag, rfl⟩ := singleton_of_map hl
  rfl

theorem takes_punct? : Takes (Parser.punct? p) [.punct p] anything true := by
  intro lexemes rest hl _
  obtain ⟨flag, rfl⟩ := singleton_of_map hl
  simp [Parser.punct?]

theorem takes_no_punct? : Takes (Parser.punct? p) [] (notPunct [p]) false := by
  intro lexemes rest hl hn
  rw [List.map_eq_nil_iff.mp hl, List.nil_append]
  have hne := hn p List.mem_cons_self
  unfold Parser.punct?
  split
  · next q flag rest =>
    have hq : q ≠ p := fun e => hne (by rw [e]; rfl)
    simp [hq]
  · rfl

theorem takes_atPunct : Takes (Parser.atPunct p) [] (· = some (.punct p)) true := by
  intro lexemes rest hl hn
  rw [List.map_eq_nil_iff.mp hl, List.nil_append]
  have hn : rest.head?.map (·.token) = some (.punct p) := hn
  simp [Parser.atPunct, hn]

theorem takes_not_atPunct : Takes (Parser.atPunct p) [] (notPunct [p]) false := by
  intro lexemes rest hl hn
  rw [List.map_eq_nil_iff.mp hl, List.nil_append]
  have hn : rest.head?.map (·.token) ≠ some (.punct p) := hn p List.mem_cons_self
  simp [Parser.atPunct, hn]

theorem takes_keyword? : Takes (Parser.keyword? word) [.name word] anything true := by
  intro lexemes rest hl _
  obtain ⟨flag, rfl⟩ := singleton_of_map hl
  simp [Parser.keyword?]

theorem takes_no_keyword? :
    Takes (Parser.keyword? word) [] (· ≠ some (.name word)) false := by
  intro lexemes rest hl hn
  rw [List.map_eq_nil_iff.mp hl, List.nil_append]
  unfold Parser.keyword?
  split
  · next text flag rest =>
    have ht : text ≠ word := fun e => hn (by rw [e]; rfl)
    simp [ht]
  · rfl

end Tokens

/-! ## 3. Repetition -/

/-- A loop gives these items on the way from the first lexemes to the last. -/
inductive Repeats {α : Type} (more : Parser Bool) (item : Parser α) :
    List Lexeme → List α → List Lexeme → Prop where
  | stop {rest} (h : more rest = .ok (false, rest)) : Repeats more item rest [] rest
  | round {lexemes between after a items rest} (hm : more lexemes = .ok (true, between))
    (hi : item between = .ok (a, after)) (hl : after.length < lexemes.length)
    (hr : Repeats more item after items rest) : Repeats more item lexemes (a :: items) rest

section Repetition

variable {α : Type} {more : Parser Bool} {item : Parser α}

theorem Repeats.loop {lexemes rest : List Lexeme} {items : List α}
    (h : Repeats more item lexemes items rest) {fuel : Nat} (hf : lexemes.length ≤ fuel) :
    Parser.loop more item fuel lexemes = .ok (items, rest) := by
  induction h generalizing fuel with
  | stop h =>
    cases fuel with
    | zero => rfl
    | succ fuel =>
      simp only [Parser.loop, bind, StateT.bind, h, Except.bind]
      rfl
  | @round lexemes between after a items rest hm hi hl hr ih =>
    cases fuel with
    | zero => omega
    | succ fuel =>
      have hrest : Parser.loop more item fuel after = .ok (items, rest) := ih (by omega)
      simp only [Parser.loop, bind, StateT.bind, hm, Except.bind, if_true, hi, hrest]
      rfl

/-- The bound on the number of items is never what ends a loop. -/
theorem Repeats.repeated {lexemes rest : List Lexeme} {items : List α}
    (h : Repeats more item lexemes items rest) :
    Parser.repeated more item lexemes = .ok (items, rest) := h.loop (Nat.le_refl _)

/-- In one round a loop takes lexemes with these tokens. -/
def TakesRound (more : Parser Bool) (item : Parser α) (tokens : List Token)
    (follow : Option Token → Prop) (a : α) : Prop :=
  ∀ lexemes rest, lexemes.map (·.token) = tokens → follow (next rest) →
    ∃ between, more (lexemes ++ rest) = .ok (true, between) ∧ item between = .ok (a, rest)

theorem Takes.round_of_ahead {tokens : List Token} {follow ahead : Option Token → Prop} {a : α}
    (hm : Takes more [] ahead true) (h : Takes item tokens follow a)
    (ht : ∀ t, follow t → ahead (tokens.head?.or t)) : TakesRound more item tokens follow a := by
  intro lexemes rest hl hn
  refine ⟨lexemes ++ rest, hm [] (lexemes ++ rest) rfl ?_, h lexemes rest hl hn⟩
  rw [next_append hl]
  exact ht _ hn

theorem Takes.round_of_punct? {tokens : List Token} {follow : Option Token → Prop} {a : α}
    (h : Takes item tokens follow a) (p : Punctuator) :
    TakesRound (Parser.punct? p) item (.punct p :: tokens) follow a := by
  intro lexemes rest hl hn
  obtain ⟨lexeme, others, rfl, hfirst, hothers⟩ := List.map_eq_cons_iff.mp hl
  have hpunct : [lexeme].map (·.token) = [.punct p] := congrArg (fun t => [t]) hfirst
  exact ⟨others ++ rest, takes_punct? p [lexeme] (others ++ rest) hpunct trivial,
    h others rest hothers hn⟩

/-- A loop takes its items one after the other. What follows an item is the next one or the end. -/
theorem takes_repeated {follow ending : Option Token → Prop} {chunks : List (List Token × α)}
    (hround : ∀ chunk ∈ chunks, TakesRound more item chunk.1 follow chunk.2)
    (hchunk : ∀ chunk ∈ chunks, ∃ t ts, chunk.1 = t :: ts ∧ follow (some t))
    (hstop : Takes more [] ending false) (hending : ∀ t, ending t → follow t) :
    Takes (Parser.repeated more item) (chunks.flatMap (·.1)) ending (chunks.map (·.2)) := by
  intro lexemes rest hl hn
  refine Repeats.repeated ?_
  -- The first round ends where the second begins, so what follows it is the head of the others.
  induction chunks generalizing lexemes with
  | nil =>
    rw [List.map_eq_nil_iff.mp hl]
    exact .stop (hstop [] rest rfl hn)
  | cons chunk chunks ih =>
    rw [List.flatMap_cons] at hl
    obtain ⟨first, others, rfl, hfirst, hothers⟩ := List.map_eq_append_iff.mp hl
    have hfollow : follow (next (others ++ rest)) := by
      rw [next_append hothers]
      cases chunks with
      | nil => exact hending _ hn
      | cons other chunks =>
        obtain ⟨t, ts, ht, hft⟩ := hchunk other (by simp)
        rw [List.flatMap_cons, ht]
        exact hft
    obtain ⟨between, hm, hi⟩ := hround chunk List.mem_cons_self first (others ++ rest) hfirst
      hfollow
    have hlength : (others ++ rest).length < (first ++ (others ++ rest)).length := by
      obtain ⟨t, ts, ht, -⟩ := hchunk chunk List.mem_cons_self
      have hpositive : 0 < first.length := by
        rw [← List.length_map Lexeme.token, hfirst, ht]
        exact Nat.succ_pos _
      simp only [List.length_append]
      omega
    rw [List.append_assoc]
    exact .round hm hi hlength (ih (fun c hc => hround c (List.mem_cons_of_mem _ hc))
      (fun c hc => hchunk c (List.mem_cons_of_mem _ hc)) others hothers)

/-- Items that begin with a token other than the closing one, up to that one. -/
theorem takes_itemsUntil {close : Punctuator} {follow : Option Token → Prop}
    {chunks : List (List Token × α)}
    (hitem : ∀ chunk ∈ chunks, Takes item chunk.1 follow chunk.2)
    (hchunk : ∀ chunk ∈ chunks, ∃ t ts, chunk.1 = t :: ts ∧ t ≠ .punct close ∧ follow (some t))
    (hclose : follow (some (.punct close))) :
    Takes (Parser.itemsUntil close item) (chunks.flatMap (·.1) ++ [.punct close]) anything
      (chunks.map (·.2)) := by
  have hmore : Takes (do return !(← Parser.atPunct close)) [] (notPunct [close]) true :=
    (takes_not_atPunct close).map (!·)
  have hstop : Takes (do return !(← Parser.atPunct close)) [] (· = some (.punct close)) false :=
    (takes_atPunct close).map (!·)
  have hloop : Takes (Parser.repeated (do return !(← Parser.atPunct close)) item)
      (chunks.flatMap (·.1)) (· = some (.punct close)) (chunks.map (·.2)) := by
    refine takes_repeated (fun chunk hc => ?_) (fun chunk hc => ?_) hstop (fun t ht => ht ▸ hclose)
    · obtain ⟨t, ts, ht, hne, -⟩ := hchunk chunk hc
      refine Takes.round_of_ahead hmore (hitem chunk hc) fun _ _ => ?_
      rw [ht]
      simpa [notPunct] using hne
    · obtain ⟨t, ts, ht, -, hf⟩ := hchunk chunk hc
      exact ⟨t, ts, ht, hf⟩
  exact hloop.bind ((takes_punct close).map fun _ => chunks.map (·.2)) fun t _ => rfl

/-- Tokens between two punctuators, and none at all if there are no items. -/
def inside (opening closing : Punctuator) (chunks : List (List Token × α)) : List Token :=
  if chunks.isEmpty then [] else .punct opening :: (chunks.flatMap (·.1) ++ [.punct closing])

theorem takes_enclosed? {opening closing : Punctuator} {follow : Option Token → Prop}
    {chunks : List (List Token × α)}
    (hitem : ∀ chunk ∈ chunks, Takes item chunk.1 follow chunk.2)
    (hchunk : ∀ chunk ∈ chunks, ∃ t ts, chunk.1 = t :: ts ∧ t ≠ .punct closing ∧ follow (some t))
    (hclose : follow (some (.punct closing))) :
    Takes (Parser.enclosed? opening closing item) (inside opening closing chunks)
      (notPunct [opening]) (chunks.map (·.2)) := by
  cases chunks with
  | nil =>
    exact (takes_not_atPunct opening).bind ((takes_pure []).mono fun _ _ => trivial) fun t ht => ht
  | cons first rest =>
    have hrest : Takes (Parser.itemsUntil closing item) (rest.flatMap (·.1) ++ [.punct closing])
        anything (rest.map (·.2)) :=
      takes_itemsUntil (fun c hc => hitem c (List.mem_cons_of_mem _ hc))
        (fun c hc => hchunk c (List.mem_cons_of_mem _ hc)) hclose
    have hfirst : ∀ t : Option Token,
        follow ((rest.flatMap (·.1) ++ [Token.punct closing]).head?.or t) := by
      intro t
      cases rest with
      | nil => exact hclose
      | cons second rest =>
        obtain ⟨t, ts, ht, -, hf⟩ := hchunk second (by simp)
        rw [List.flatMap_cons, ht]
        exact hf
    have hitems : Takes (do
        let first ← item
        let rest ← Parser.itemsUntil closing item
        return first :: rest) (first.1 ++ (rest.flatMap (·.1) ++ [.punct closing])) anything
          (first.2 :: rest.map (·.2)) :=
      (hitem first List.mem_cons_self).bind (hrest.map (first.2 :: ·)) fun t _ => hfirst t
    have hall : Takes (Parser.enclosed opening closing item)
        ([.punct opening] ++ (first.1 ++ (rest.flatMap (·.1) ++ [.punct closing]))) anything
          (first.2 :: rest.map (·.2)) := (takes_punct opening).bind hitems fun _ _ => trivial
    have hopen : Takes (Parser.enclosed? opening closing item)
        ([] ++ ([.punct opening] ++ (first.1 ++ (rest.flatMap (·.1) ++ [.punct closing])))) anything
          (first.2 :: rest.map (·.2)) :=
      (takes_atPunct opening).bind hall fun _ _ => rfl
    rw [List.nil_append, List.singleton_append, ← List.append_assoc] at hopen
    exact hopen.mono fun _ _ => trivial

/-- Names with a punctuator between them. -/
theorem takes_separated (separator : Punctuator) (what word : String) (words : List String) :
    Takes (Parser.separated separator (Parser.name what))
      (.name word :: words.flatMap fun word => [.punct separator, .name word])
      (notPunct [separator]) (word :: words) := by
  have hrounds : Takes (Parser.repeated (Parser.punct? separator) (Parser.name what))
      ((words.map fun word => ([.punct separator, .name word], word)).flatMap (·.1))
      (notPunct [separator])
      ((words.map fun word => ([.punct separator, Token.name word], word)).map (·.2)) := by
    refine takes_repeated (fun chunk hc => ?_) (fun chunk hc => ?_) (takes_no_punct? separator)
      (fun _ _ => trivial)
    · obtain ⟨other, -, rfl⟩ := List.mem_map.mp hc
      exact (takes_name other what).round_of_punct? separator
    · obtain ⟨other, -, rfl⟩ := List.mem_map.mp hc
      exact ⟨_, _, rfl, trivial⟩
  rw [List.flatMap_map, List.map_map] at hrounds
  have hids :
      (words.map ((·.2) ∘ fun word => ([.punct separator, Token.name word], word))) = words :=
    List.map_id words
  rw [hids] at hrounds
  have hitems : Takes (do
      let first ← Parser.name what
      let rest ← Parser.repeated (Parser.punct? separator) (Parser.name what)
      return first :: rest)
        ([.name word] ++ words.flatMap fun word => [.punct separator, .name word])
        (notPunct [separator]) (word :: words) :=
    (takes_name word what).bind (hrounds.map (word :: ·)) fun _ _ => trivial
  have hno : ∀ t : Option Token, notPunct [separator] (([Token.name word] ++ words.flatMap
      fun word => [Token.punct separator, .name word]).head?.or t) := by
    intro t p _
    simp
  exact (takes_no_punct? separator).bind hitems fun t _ => hno t

end Repetition

/-! ## 4. Types -/

namespace TypeRef

def tokens : TypeRef → List Token
  | .named n => [.name n]
  | .nonNullNamed n => [.name n, .punct .bang]
  | .list t => .punct .openBracket :: (t.tokens ++ [.punct .closeBracket])
  | .nonNullList t => .punct .openBracket :: (t.tokens ++ [.punct .closeBracket, .punct .bang])

/-- How many lists stand inside each other in a type. -/
def lists : TypeRef → Nat
  | .named _ | .nonNullNamed _ => 0
  | .list t | .nonNullList t => t.lists + 1

end TypeRef

theorem marked_of_next {rest : List Lexeme} (h : notPunct [.bang] (next rest)) (t : TypeRef) :
    Parser.marked t rest = (t, rest) := by
  unfold Parser.marked
  split
  · next flag rest => exact absurd rfl (h .bang List.mem_cons_self)
  · rfl

theorem closeLists_bang {rest : List Lexeme} (h : notPunct [.bang] (next rest)) (depth : Nat)
    (t : TypeRef) (flag : Bool) :
    Parser.closeLists depth t (⟨.punct .bang, flag⟩ :: rest) =
      Parser.closeLists depth t.nonNull rest := by
  cases depth <;> simp only [Parser.closeLists, marked_of_next h] <;> rfl

theorem closeLists_bracket (depth : Nat) (t : TypeRef) (flag : Bool) (rest : List Lexeme) :
    Parser.closeLists (depth + 1) t (⟨.punct .closeBracket, flag⟩ :: rest) =
      Parser.closeLists depth (.list t) rest := by
  have hmark : Parser.marked t (⟨.punct .closeBracket, flag⟩ :: rest) =
      (t, ⟨.punct .closeBracket, flag⟩ :: rest) := rfl
  simp only [Parser.closeLists, hmark]

theorem openLists_bracket {depth : Nat} (h : depth < maxNesting) (flag : Bool)
    (rest : List Lexeme) :
    Parser.openLists depth (⟨.punct .openBracket, flag⟩ :: rest) =
      Parser.openLists (depth + 1) rest := by
  rw [Parser.openLists, if_pos h]

/-- After a type, the lists that are open around it are what is left to close. -/
theorem openLists_tokens (t : TypeRef) {depth : Nat} {lexemes rest : List Lexeme}
    (hl : lexemes.map (·.token) = t.tokens) (hn : notPunct [.bang] (next rest))
    (hd : depth + t.lists ≤ maxNesting) :
    Parser.openLists depth (lexemes ++ rest) = Parser.closeLists depth t rest := by
  induction t generalizing depth lexemes rest with
  | named n =>
    obtain ⟨flag, rfl⟩ := singleton_of_map hl
    rfl
  | nonNullNamed n =>
    obtain ⟨⟨token, flag⟩, others, rfl, rfl, hothers⟩ := List.map_eq_cons_iff.mp hl
    obtain ⟨bang, rfl⟩ := singleton_of_map hothers
    exact closeLists_bang hn depth (.named n) bang
  | list t ih =>
    obtain ⟨⟨token, flag⟩, others, rfl, rfl, hothers⟩ := List.map_eq_cons_iff.mp hl
    obtain ⟨inner, closing, rfl, hinner, hclosing⟩ := List.map_eq_append_iff.mp hothers
    obtain ⟨bracket, rfl⟩ := singleton_of_map hclosing
    have hd : depth + (t.lists + 1) ≤ maxNesting := hd
    rw [List.cons_append, openLists_bracket (by omega), List.append_assoc,
      ih hinner (by simp [notPunct, next]) (by omega)]
    exact closeLists_bracket depth t bracket rest
  | nonNullList t ih =>
    -- The bracket closes a nullable list, and the mark after it makes it non-null.
    obtain ⟨⟨token, flag⟩, others, rfl, rfl, hothers⟩ := List.map_eq_cons_iff.mp hl
    obtain ⟨inner, closing, rfl, hinner, hclosing⟩ := List.map_eq_append_iff.mp hothers
    obtain ⟨⟨token, bracket⟩, marks, rfl, rfl, hmarks⟩ := List.map_eq_cons_iff.mp hclosing
    obtain ⟨bang, rfl⟩ := singleton_of_map hmarks
    have hd : depth + (t.lists + 1) ≤ maxNesting := hd
    rw [List.cons_append, openLists_bracket (by omega), List.append_assoc,
      ih hinner (by simp [notPunct, next]) (by omega)]
    change Parser.closeLists (depth + 1) t (⟨.punct .closeBracket, bracket⟩ ::
      ⟨.punct .bang, bang⟩ :: rest) = _
    rw [closeLists_bracket]
    exact closeLists_bang hn depth (.list t) bang

theorem takes_typeRef {t : TypeRef} (h : t.lists ≤ maxNesting) :
    Takes Parser.typeRef t.tokens (notPunct [.bang]) t := by
  intro lexemes rest hl hn
  have hall : Parser.openLists 0 (lexemes ++ rest) = Parser.closeLists 0 t rest :=
    openLists_tokens t hl hn (by omega)
  have hmark : Parser.closeLists 0 t rest = .ok (Parser.marked t rest) := by
    simp [Parser.closeLists]
  rw [marked_of_next hn] at hmark
  exact hall.trans hmark

/-! ## 5. Values -/

/-- The constant values, with at most so many levels inside them, and the tokens that spell them. -/
inductive Literal : Nat → List Token → Value → Prop where
  | int {depth} (numeral : String) : Literal depth [.int numeral] (.int numeral)
  | float {depth} (numeral : String) : Literal depth [.float numeral] (.float numeral)
  | string {depth} (text : String) : Literal depth [.string text] (.string text)
  | blockString {depth} (text : String) : Literal depth [.blockString text] (.string text)
  | true {depth} : Literal depth [.name "true"] (.boolean true)
  | false {depth} : Literal depth [.name "false"] (.boolean false)
  | null {depth} : Literal depth [.name "null"] .null
  | enum {depth} {name : Name} (h : name ∉ ["true", "false", "null"]) :
      Literal depth [.name name] (.enum name)
  | emptyList {depth} : Literal depth [.punct .openBracket, .punct .closeBracket] (.list [])
  | list {depth} {items : List (List Token × Value)}
      (h : ∀ item ∈ items, Literal depth item.1 item.2) :
      Literal (depth + 1)
        (.punct .openBracket :: (items.flatMap (·.1) ++ [.punct .closeBracket]))
        (.list (items.map (·.2)))
  | emptyObject {depth} : Literal depth [.punct .openBrace, .punct .closeBrace] (.object [])
  | object {depth} {fields : List (Name × List Token × Value)}
      (h : ∀ field ∈ fields, Literal depth field.2.1 field.2.2) :
      Literal (depth + 1)
        (.punct .openBrace :: (fields.flatMap (fun field =>
          .name field.1 :: .punct .colon :: field.2.1) ++ [.punct .closeBrace]))
        (.object (fields.map fun field => (field.1, field.2.2)))

theorem Literal.head {depth : Nat} {tokens : List Token} {value : Value}
    (h : Literal depth tokens value) :
    ∃ t ts, tokens = t :: ts ∧ t ≠ .punct .closeBracket := by
  cases h <;> exact ⟨_, _, rfl, by simp⟩

theorem Value.ofName_enum {name : Name} (h : name ∉ ["true", "false", "null"]) :
    Parser.Value.ofName name = .enum name := by
  unfold Parser.Value.ofName
  split <;> simp_all

section Values

variable {inner : Parser Value}

theorem takes_word (inner : Parser Value) (name : Name) :
    Takes (Parser.valueWith true inner) [.name name] anything (Parser.Value.ofName name) := by
  intro lexemes rest hl _
  obtain ⟨flag, rfl⟩ := singleton_of_map hl
  rfl

theorem takes_listValue {tokens : List Token} {items : List Value}
    (h : Takes (Parser.itemsUntil .closeBracket inner) tokens anything items) :
    Takes (Parser.valueWith true inner) (.punct .openBracket :: tokens) anything (.list items) := by
  intro lexemes rest hl _
  obtain ⟨⟨token, flag⟩, others, rfl, rfl, hothers⟩ := List.map_eq_cons_iff.mp hl
  rw [List.cons_append]
  simp only [Parser.valueWith, h others rest hothers trivial]
  rfl

theorem takes_objectValue {tokens : List Token} {fields : List (Name × Value)}
    (h : Takes (Parser.itemsUntil .closeBrace (Parser.objectField inner)) tokens anything fields) :
    Takes (Parser.valueWith true inner) (.punct .openBrace :: tokens) anything
      (.object fields) := by
  intro lexemes rest hl _
  obtain ⟨⟨token, flag⟩, others, rfl, rfl, hothers⟩ := List.map_eq_cons_iff.mp hl
  rw [List.cons_append]
  simp only [Parser.valueWith, h others rest hothers trivial]
  rfl

theorem takes_objectField {tokens : List Token} {value : Value} (name : Name)
    (h : Takes inner tokens anything value) :
    Takes (Parser.objectField inner) (.name name :: .punct .colon :: tokens) anything
      (name, value) := by
  have hvalue : Takes (do
      Parser.punct .colon
      return (name, ← inner)) ([.punct .colon] ++ tokens) anything (name, value) :=
    (takes_punct .colon).bind (h.map (name, ·)) fun _ _ => trivial
  exact (takes_name name "a field name").bind hvalue fun _ _ => trivial

end Values

theorem valueAt_eq (constant : Bool) (depth : Nat) :
    ∃ inner, Parser.valueAt constant depth = Parser.valueWith constant inner := by
  cases depth <;> exact ⟨_, rfl⟩

/-- A parser of values reads every literal that is not too deep for it. -/
theorem takes_value {depth : Nat} {tokens : List Token} {value : Value}
    (h : Literal depth tokens value) :
    Takes (Parser.valueAt true depth) tokens anything value := by
  induction h with
  | @int depth | @float depth | @string depth | @blockString depth =>
    intro lexemes rest hl _
    obtain ⟨flag, rfl⟩ := singleton_of_map hl
    obtain ⟨inner, hinner⟩ := valueAt_eq true depth
    rw [hinner]
    rfl
  | @true depth | @false depth | @null depth =>
    obtain ⟨inner, hinner⟩ := valueAt_eq true depth
    rw [hinner]
    exact takes_word inner _
  | @enum depth name h =>
    obtain ⟨inner, hinner⟩ := valueAt_eq true depth
    rw [hinner, ← Value.ofName_enum h]
    exact takes_word inner name
  | @emptyList depth =>
    obtain ⟨inner, hinner⟩ := valueAt_eq true depth
    rw [hinner]
    exact takes_listValue (@takes_itemsUntil _ inner _ anything [] (by simp) (by simp) trivial)
  | @emptyObject depth =>
    obtain ⟨inner, hinner⟩ := valueAt_eq true depth
    rw [hinner]
    exact takes_objectValue
      (@takes_itemsUntil _ (Parser.objectField inner) _ anything [] (by simp) (by simp) trivial)
  | @list depth items h ih =>
    refine takes_listValue (takes_itemsUntil ih (fun item hi => ?_) trivial)
    obtain ⟨t, ts, ht, hne⟩ := (h item hi).head
    exact ⟨t, ts, ht, hne, trivial⟩
  | @object depth fields h ih =>
    let chunks := fields.map fun field : Name × List Token × Value =>
      (Token.name field.1 :: .punct .colon :: field.2.1, (field.1, field.2.2))
    have hitems : Takes
        (Parser.itemsUntil .closeBrace (Parser.objectField (Parser.valueAt true depth)))
        (chunks.flatMap (·.1) ++ [.punct .closeBrace]) anything (chunks.map (·.2)) := by
      refine takes_itemsUntil (fun chunk hc => ?_) (fun chunk hc => ?_) (anything_holds _)
      · obtain ⟨field, hf, rfl⟩ := List.mem_map.mp hc
        exact takes_objectField field.1 (ih field hf)
      · obtain ⟨field, hf, rfl⟩ := List.mem_map.mp hc
        exact ⟨_, _, rfl, by simp, trivial⟩
    rw [List.flatMap_map, List.map_map] at hitems
    exact takes_objectValue hitems

end MockGraph.Syntax
