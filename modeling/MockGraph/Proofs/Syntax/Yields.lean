import MockGraph.Proofs.Syntax.Definitions

/-!
# `Proofs/Syntax/Yields`: what parsers give if they give anything

`Takes` says that a parser succeeds. To show that a text is refused it is easier to assume that it
is not, and to follow the parser: `Yields parser lexemes post` is partial correctness, and a failure
satisfies every `post`.

An attempt at a part of a text has two ways to end well. Either the parser takes just that part and
the part is sound, or it stops too early or too late, at lexemes where nothing can go on (`stuck`).
`Attempts` says that there is no third way. The bound on the rounds of a loop is one more reason to
stop, so nothing has to be said about it.

Main statements: `yields_itemsUntil` for items in brackets, `attempts_value` for literals that may be
too deep, and `parses_of_ofLexemes`, which makes a document a list of definitions.
-/

set_option autoImplicit false

namespace MockGraph.Syntax

/-! ## 1. Partial correctness -/

/-- What a parser gives in front of these lexemes satisfies `post`, if it gives anything. -/
def Yields {α : Type} (parser : Parser α) (lexemes : List Lexeme)
    (post : α → List Lexeme → Prop) : Prop :=
  ∀ a left, parser lexemes = .ok (a, left) → post a left

section Yields

variable {α β : Type} {parser : Parser α} {after : α → Parser β} {lexemes rest : List Lexeme}
  {tokens : List Token} {follow : Option Token → Prop} {a : α}
  {post post' : α → List Lexeme → Prop} {goal : β → List Lexeme → Prop}

theorem Yields.mono (h : Yields parser lexemes post) (hp : ∀ a left, post a left → post' a left) :
    Yields parser lexemes post' := by
  intro a left hok
  exact hp a left (h a left hok)

theorem yields_of_error {error : SyntaxError} (h : parser lexemes = .error error) :
    Yields parser lexemes post := by
  intro a left hok
  rw [h] at hok
  cases hok

theorem yields_pure (h : post a lexemes) : Yields (pure a) lexemes post := by
  intro b left hok
  cases hok
  exact h

theorem Yields.bind (h : Yields parser lexemes post)
    (h' : ∀ a left, post a left → Yields (after a) left goal) :
    Yields (parser >>= after) lexemes goal := by
  intro b left hok
  change (parser lexemes >>= fun found => after found.1 found.2) = _ at hok
  cases hp : parser lexemes with
  | error error =>
    rw [hp] at hok
    cases hok
  | ok found =>
    rw [hp] at hok
    exact h' found.1 found.2 (h _ _ hp) b left hok

/-- A parser that is known to succeed goes on with what follows. -/
theorem Yields.of_ok {left : List Lexeme} (h : parser lexemes = .ok (a, left))
    (h' : Yields (after a) left goal) : Yields (parser >>= after) lexemes goal := by
  have hgiven : Yields parser lexemes fun b left' => b = a ∧ left' = left := by
    intro b left' hok
    rw [h] at hok
    cases hok
    exact ⟨rfl, rfl⟩
  refine hgiven.bind ?_
  rintro b left' ⟨rfl, rfl⟩
  exact h'

theorem Takes.yields (h : Takes parser tokens follow a) (hl : lexemes.map (·.token) = tokens)
    (hf : follow (next rest)) (h' : Yields (after a) rest goal) :
    Yields (parser >>= after) (lexemes ++ rest) goal :=
  Yields.of_ok (h lexemes rest hl hf) h'

end Yields

/-! ## 2. Single tokens -/

theorem next_of_map {lexemes rest : List Lexeme} {t : Token} {ts : List Token}
    (h : lexemes.map (·.token) = t :: ts) : next (lexemes ++ rest) = some t := by
  rw [next_append h]
  rfl

theorem cons_of_next {lexemes : List Lexeme} {t : Token} (h : next lexemes = some t) :
    ∃ flag rest, lexemes = ⟨t, flag⟩ :: rest := by
  cases lexemes with
  | nil => cases h
  | cons lexeme rest =>
    obtain ⟨token, flag⟩ := lexeme
    cases Option.some.inj h
    exact ⟨flag, rest, rfl⟩

theorem yields_name {what : String} {lexemes : List Lexeme} {post : Name → List Lexeme → Prop}
    (h : ∀ name flag rest, lexemes = ⟨.name name, flag⟩ :: rest → post name rest) :
    Yields (Parser.name what) lexemes post := by
  intro name left hok
  unfold Parser.name at hok
  split at hok
  · cases hok
    exact h _ _ _ rfl
  · cases hok

theorem yields_punct {p : Punctuator} {lexemes : List Lexeme} {post : Unit → List Lexeme → Prop}
    (h : ∀ flag rest, lexemes = ⟨.punct p, flag⟩ :: rest → post () rest) :
    Yields (Parser.punct p) lexemes post := by
  intro u left hok
  unfold Parser.punct at hok
  split at hok
  · split at hok
    · next hq =>
      subst hq
      cases hok
      exact h _ _ rfl
    · cases hok
  · cases hok

/-! ## 3. Attempts -/

/-- If a parser gives anything in front of lexemes with these tokens, then either it has taken just
these and `sound` holds, or it has stopped where nothing can go on. -/
def Attempts {α : Type} (parser : Parser α) (tokens : List Token) (follow stuck : List Lexeme → Prop)
    (sound : Prop) : Prop :=
  ∀ lexemes rest, lexemes.map (·.token) = tokens → follow rest →
    Yields parser (lexemes ++ rest) fun _ left => (sound ∧ left = rest) ∨ stuck left

section Attempts

variable {α β : Type} {parser : Parser α} {after : α → Parser β} {tokens more : List Token}
  {follow follow' stuck stuck' : List Lexeme → Prop} {sound sound' : Prop}

theorem Takes.attempts {ahead : Option Token → Prop} {a : α} (h : Takes parser tokens ahead a)
    (hf : ∀ rest, follow rest → ahead (next rest)) : Attempts parser tokens follow stuck True := by
  intro lexemes rest hl hrest b left hok
  rw [h lexemes rest hl (hf rest hrest)] at hok
  cases hok
  exact .inl ⟨trivial, rfl⟩

theorem Attempts.imp (h : Attempts parser tokens follow stuck sound) (hs : sound → sound') :
    Attempts parser tokens follow stuck sound' := by
  intro lexemes rest hl hrest
  exact (h lexemes rest hl hrest).mono fun a left hleft => hleft.imp (fun h => ⟨hs h.1, h.2⟩) id

theorem Attempts.map (f : α → β) (h : Attempts parser tokens follow stuck sound) :
    Attempts (parser >>= fun a => pure (f a)) tokens follow stuck sound := by
  intro lexemes rest hl hrest
  exact (h lexemes rest hl hrest).bind fun a left hleft => yields_pure hleft

/-- What a parser stops at is where the next one stops, too. -/
theorem Attempts.bind (h : Attempts parser tokens follow stuck sound)
    (h' : ∀ a, Attempts (after a) more follow' stuck' sound')
    (hf : ∀ lexemes rest, lexemes.map (·.token) = more → follow' rest → follow (lexemes ++ rest))
    (hs : ∀ a left, stuck left → Yields (after a) left fun _ left => stuck' left) :
    Attempts (parser >>= after) (tokens ++ more) follow' stuck' (sound ∧ sound') := by
  intro lexemes rest hl hrest
  obtain ⟨first, last, rfl, hfirst, hlast⟩ := List.map_eq_append_iff.mp hl
  rw [List.append_assoc]
  refine (h first (last ++ rest) hfirst (hf last rest hlast hrest)).bind fun a left hleft => ?_
  rcases hleft with ⟨hsound, rfl⟩ | hstuck
  · refine (h' a last rest hlast hrest).mono fun b left hleft => ?_
    exact hleft.imp (fun h => ⟨⟨hsound, h.1⟩, h.2⟩) id
  · exact (hs a left hstuck).mono fun b left hleft => .inr hleft

/-- What is taken for certain comes before an attempt. -/
theorem Takes.before {ahead : Option Token → Prop} {a : α} (h : Takes parser tokens ahead a)
    (h' : Attempts (after a) more follow stuck sound)
    (hf : ∀ lexemes rest, lexemes.map (·.token) = more → follow rest →
      ahead (next (lexemes ++ rest))) :
    Attempts (parser >>= after) (tokens ++ more) follow stuck sound := by
  intro lexemes rest hl hrest
  obtain ⟨first, last, rfl, hfirst, hlast⟩ := List.map_eq_append_iff.mp hl
  rw [List.append_assoc]
  exact h.yields hfirst (hf last rest hlast hrest) (h' last rest hlast hrest)

/-- A parser that begins with a description and a name. -/
theorem attempts_described {rest : Option String → Name → Parser α} (description : Option String)
    (name : Name) (what : String) (h : Attempts (rest description name) tokens follow stuck sound) :
    Attempts (do rest (← Parser.description?) (← Parser.name what))
      (descriptionTokens description ++ .name name :: tokens) follow stuck sound := by
  have hnamed : Attempts (do rest description (← Parser.name what)) ([.name name] ++ tokens) follow
      stuck sound := (takes_name name what).before h fun _ _ _ _ => trivial
  refine (takes_description? description).before hnamed fun lexemes rest hl _ => ?_
  rw [next_append hl]
  exact ⟨name, rfl⟩

end Attempts

/-! ## 4. Items in brackets -/

section Items

variable {α : Type} {item : Parser α} {close : Punctuator} {stuck : List Lexeme → Prop}

/-- One round of the loop over items. -/
theorem yields_round {fuel : Nat} {lexemes : List Lexeme} {post : α → List Lexeme → Prop}
    {goal : List α → List Lexeme → Prop} (hn : next lexemes ≠ some (.punct close))
    (hi : Yields item lexemes post)
    (hg : ∀ a left, post a left →
      Yields (Parser.loop (do return !(← Parser.atPunct close)) item fuel) left
        fun items left => goal (a :: items) left) :
    Yields (Parser.loop (do return !(← Parser.atPunct close)) item (fuel + 1)) lexemes goal := by
  have hmore : (do return !(← Parser.atPunct close) : Parser Bool) lexemes = .ok (true, lexemes) := by
    have hnot := ((takes_not_atPunct close).map (!·)) [] lexemes rfl
    exact hnot (by simpa [notPunct] using hn)
  unfold Parser.loop
  refine Yields.of_ok hmore ?_
  refine hi.bind fun a left hleft => ?_
  refine (hg a left hleft).bind fun items left hgoal => ?_
  exact yields_pure hgoal

/-- The items of a list, each with its tokens and the condition that it is sound. -/
theorem yields_items {follow : List Lexeme → Prop} {chunks : List (List Token × Prop)}
    (hitem : ∀ chunk ∈ chunks, Attempts item chunk.1 follow stuck chunk.2)
    (hhead : ∀ chunk ∈ chunks, ∃ t ts, chunk.1 = t :: ts ∧ t ≠ .punct close)
    (hchunk : ∀ chunk ∈ chunks, ∀ lexemes rest, lexemes.map (·.token) = chunk.1 →
      follow (lexemes ++ rest))
    (hclose : ∀ rest, next rest = some (.punct close) → follow rest)
    (hstuck : ∀ left, stuck left → next left ≠ some (.punct close) ∧
      Yields item left fun _ _ => False)
    (fuel : Nat) {lexemes rest : List Lexeme} (hl : lexemes.map (·.token) = chunks.flatMap (·.1))
    (hrest : next rest = some (.punct close)) :
    Yields (Parser.loop (do return !(← Parser.atPunct close)) item fuel) (lexemes ++ rest)
      fun _ left => ((∀ chunk ∈ chunks, chunk.2) ∧ left = rest) ∨
        next left ≠ some (.punct close) := by
  induction chunks generalizing lexemes fuel with
  | nil =>
    rw [List.map_eq_nil_iff.mp hl, List.nil_append]
    cases fuel with
    | zero => exact yields_pure (.inl ⟨by simp, rfl⟩)
    | succ fuel =>
      have hmore : (do return !(← Parser.atPunct close) : Parser Bool) rest = .ok (false, rest) :=
        ((takes_atPunct close).map (!·)) [] rest rfl hrest
      unfold Parser.loop
      exact Yields.of_ok hmore (yields_pure (.inl ⟨by simp, rfl⟩))
  | cons chunk chunks ih =>
    obtain ⟨t, ts, ht, hne⟩ := hhead chunk List.mem_cons_self
    rw [List.flatMap_cons] at hl
    obtain ⟨first, others, rfl, hfirst, hothers⟩ := List.map_eq_append_iff.mp hl
    rw [List.append_assoc]
    have hnext : next (first ++ (others ++ rest)) ≠ some (.punct close) := by
      rw [next_of_map (hfirst.trans ht)]
      exact fun h => hne (Option.some.inj h)
    have hfollow : follow (others ++ rest) := by
      cases chunks with
      | nil =>
        rw [List.map_eq_nil_iff.mp hothers]
        exact hclose rest hrest
      | cons other chunks =>
        rw [List.flatMap_cons] at hothers
        obtain ⟨second, last, rfl, hsecond, -⟩ := List.map_eq_append_iff.mp hothers
        rw [List.append_assoc]
        exact hchunk other (by simp) second (last ++ rest) hsecond
    cases fuel with
    | zero => exact yields_pure (.inr hnext)
    | succ fuel =>
      refine yields_round hnext (hitem chunk List.mem_cons_self first _ hfirst hfollow) ?_
      rintro a left (⟨hsound, rfl⟩ | hleft)
      · have hrest := ih (fun c hc => hitem c (List.mem_cons_of_mem _ hc))
          (fun c hc => hhead c (List.mem_cons_of_mem _ hc))
          (fun c hc => hchunk c (List.mem_cons_of_mem _ hc)) fuel hothers
        refine hrest.mono fun items left hleft => hleft.imp (fun h => ⟨?_, h.2⟩) id
        exact List.forall_mem_cons.mpr ⟨hsound, h.1⟩
      · obtain ⟨hopen, hfails⟩ := hstuck left hleft
        cases fuel with
        | zero => exact yields_pure (.inr hopen)
        | succ fuel => exact yields_round hopen hfails fun _ _ h => h.elim

theorem attempts_itemsUntil {follow : List Lexeme → Prop} {chunks : List (List Token × Prop)}
    (hitem : ∀ chunk ∈ chunks, Attempts item chunk.1 follow stuck chunk.2)
    (hhead : ∀ chunk ∈ chunks, ∃ t ts, chunk.1 = t :: ts ∧ t ≠ .punct close)
    (hchunk : ∀ chunk ∈ chunks, ∀ lexemes rest, lexemes.map (·.token) = chunk.1 →
      follow (lexemes ++ rest))
    (hclose : ∀ rest, next rest = some (.punct close) → follow rest)
    (hstuck : ∀ left, stuck left → next left ≠ some (.punct close) ∧
      Yields item left fun _ _ => False) (stuck' : List Lexeme → Prop) :
    Attempts (Parser.itemsUntil close item) (chunks.flatMap (·.1) ++ [.punct close])
      (fun _ => True) stuck' (∀ chunk ∈ chunks, chunk.2) := by
  intro lexemes rest hl _
  obtain ⟨items, last, rfl, hitems, hlast⟩ := List.map_eq_append_iff.mp hl
  obtain ⟨flag, rfl⟩ := singleton_of_map hlast
  rw [List.append_assoc]
  unfold Parser.itemsUntil
  have hloop : Yields (Parser.repeated (do return !(← Parser.atPunct close)) item)
      (items ++ (⟨.punct close, flag⟩ :: rest)) _ :=
    yields_items hitem hhead hchunk hclose hstuck _ hitems rfl
  refine hloop.bind fun found left hleft => ?_
  have hclosing : Yields (Parser.punct close) left
      fun _ left => (∀ chunk ∈ chunks, chunk.2) ∧ left = rest := by
    refine yields_punct fun flag' rest' hrest' => ?_
    rcases hleft with ⟨hsound, rfl⟩ | hne
    · cases hrest'
      exact ⟨hsound, rfl⟩
    · rw [hrest'] at hne
      exact absurd rfl hne
  exact hclosing.bind fun _ left h => yields_pure (.inl h)

theorem yields_itemsUntil_stuck {left : List Lexeme} (h : ∀ left, stuck left →
    next left ≠ some (.punct close) ∧ Yields item left fun _ _ => False) (hl : stuck left) :
    Yields (Parser.itemsUntil close item) left fun _ _ => False := by
  obtain ⟨hnext, hfails⟩ := h left hl
  have hloop : Yields (Parser.repeated (do return !(← Parser.atPunct close)) item) left
      fun _ rest => next rest ≠ some (.punct close) := by
    unfold Parser.repeated
    cases left with
    | nil => exact yields_pure hnext
    | cons lexeme lexemes => exact yields_round hnext hfails fun _ _ h => h.elim
  refine hloop.bind fun items rest hrest => ?_
  have hclosing : Yields (Parser.punct close) rest fun _ _ => False := by
    refine yields_punct fun flag rest' h => ?_
    rw [h] at hrest
    exact hrest rfl
  exact hclosing.bind fun _ _ h => h.elim

/-- Items in brackets, or none and no brackets. -/
theorem attempts_enclosed? {opening : Punctuator} {follow : List Lexeme → Prop}
    {chunks : List (List Token × Prop)}
    (hitem : ∀ chunk ∈ chunks, Attempts item chunk.1 follow stuck chunk.2)
    (hhead : ∀ chunk ∈ chunks, ∃ t ts, chunk.1 = t :: ts ∧ t ≠ .punct close)
    (hchunk : ∀ chunk ∈ chunks, ∀ lexemes rest, lexemes.map (·.token) = chunk.1 →
      follow (lexemes ++ rest))
    (hclose : ∀ rest, next rest = some (.punct close) → follow rest)
    (hstuck : ∀ left, stuck left → next left ≠ some (.punct close) ∧
      Yields item left fun _ _ => False) (stuck' : List Lexeme → Prop) :
    Attempts (Parser.enclosed? opening close item) (inside opening close chunks)
      (fun rest => next rest ≠ some (.punct opening)) stuck' (∀ chunk ∈ chunks, chunk.2) := by
  intro lexemes rest hl hrest
  unfold Parser.enclosed?
  cases chunks with
  | nil =>
    rw [List.map_eq_nil_iff.mp hl, List.nil_append]
    have hnot : Parser.atPunct opening rest = .ok (false, rest) :=
      takes_not_atPunct opening [] rest rfl (by simpa [notPunct] using hrest)
    exact Yields.of_ok hnot (yields_pure (.inl ⟨by simp, rfl⟩))
  | cons chunk chunks =>
    have hinside : inside opening close (chunk :: chunks) =
        .punct opening :: (chunk.1 ++ (chunks.flatMap (·.1) ++ [.punct close])) := by
      simp [inside]
    rw [hinside] at hl
    obtain ⟨⟨token, flag⟩, others, rfl, rfl, hothers⟩ := List.map_eq_cons_iff.mp hl
    obtain ⟨first, last, rfl, hfirst, hlast⟩ := List.map_eq_append_iff.mp hothers
    rw [List.cons_append, List.append_assoc]
    have hat : Parser.atPunct opening (⟨.punct opening, flag⟩ :: (first ++ (last ++ rest))) =
        .ok (true, ⟨.punct opening, flag⟩ :: (first ++ (last ++ rest))) :=
      takes_atPunct opening [] _ rfl rfl
    have hopen : Parser.punct opening (⟨.punct opening, flag⟩ :: (first ++ (last ++ rest))) =
        .ok ((), first ++ (last ++ rest)) := takes_punct opening [_] _ rfl trivial
    refine Yields.of_ok hat ?_
    refine Yields.of_ok hopen ?_
    have hfollow : follow (last ++ rest) := by
      cases chunks with
      | nil =>
        obtain ⟨flag, rfl⟩ := singleton_of_map hlast
        exact hclose _ rfl
      | cons other chunks =>
        rw [List.flatMap_cons, List.append_assoc] at hlast
        obtain ⟨second, more, rfl, hsecond, -⟩ := List.map_eq_append_iff.mp hlast
        rw [List.append_assoc]
        exact hchunk other (by simp) second (more ++ rest) hsecond
    refine (hitem chunk List.mem_cons_self first _ hfirst hfollow).bind fun a left hleft => ?_
    have hmore := attempts_itemsUntil (fun c hc => hitem c (List.mem_cons_of_mem _ hc))
      (fun c hc => hhead c (List.mem_cons_of_mem _ hc))
      (fun c hc => hchunk c (List.mem_cons_of_mem _ hc)) hclose hstuck (fun _ => False)
    rcases hleft with ⟨hsound, rfl⟩ | hleft
    · refine (hmore last rest hlast trivial).bind fun items left hleft => ?_
      obtain ⟨hall, rfl⟩ := hleft.resolve_right id
      exact yields_pure (.inl ⟨List.forall_mem_cons.mpr ⟨hsound, hall⟩, rfl⟩)
    · -- The closing punctuator is not next, and another item is not, either.
      exact (yields_itemsUntil_stuck hstuck hleft).bind fun _ _ h => h.elim

end Items

/-! ## 5. Values -/

section Values

variable {inner : Parser Value} {tokens : List Token} {stuck : List Lexeme → Prop}

theorem attempts_listValue
    (h : Attempts (Parser.itemsUntil .closeBracket inner) tokens (fun _ => True) stuck True) :
    Attempts (Parser.valueWith true inner) (.punct .openBracket :: tokens) (fun _ => True) stuck
      True := by
  intro lexemes rest hl hrest
  obtain ⟨⟨token, flag⟩, others, rfl, rfl, hothers⟩ := List.map_eq_cons_iff.mp hl
  exact h.map Value.list others rest hothers trivial

theorem attempts_objectValue
    (h : Attempts (Parser.itemsUntil .closeBrace (Parser.objectField inner)) tokens (fun _ => True)
      stuck True) :
    Attempts (Parser.valueWith true inner) (.punct .openBrace :: tokens) (fun _ => True) stuck
      True := by
  intro lexemes rest hl hrest
  obtain ⟨⟨token, flag⟩, others, rfl, rfl, hothers⟩ := List.map_eq_cons_iff.mp hl
  exact h.map Value.object others rest hothers trivial

theorem attempts_objectField (name : Name)
    (h : Attempts inner tokens (fun _ => True) stuck True) :
    Attempts (Parser.objectField inner) (.name name :: .punct .colon :: tokens) (fun _ => True)
      stuck True := by
  intro lexemes rest hl hrest
  obtain ⟨⟨token, flag⟩, others, rfl, rfl, hothers⟩ := List.map_eq_cons_iff.mp hl
  obtain ⟨⟨token, flag'⟩, value, rfl, rfl, hvalue⟩ := List.map_eq_cons_iff.mp hothers
  refine Yields.of_ok (takes_name name "a field name" [_] _ rfl trivial) ?_
  refine Yields.of_ok (takes_punct .colon [_] _ rfl trivial) ?_
  exact h.map (name, ·) value rest hvalue trivial

theorem attempts_tooDeep {α : Type} (tokens : List Token) :
    Attempts (Parser.tooDeep : Parser α) tokens (fun _ => True) stuck True :=
  fun _ _ _ _ => yields_of_error rfl

theorem attempts_list {items : List (List Token × Value)}
    (h : ∀ item ∈ items, Attempts inner item.1 (fun _ => True) (fun _ => False) True)
    (hhead : ∀ item ∈ items, ∃ t ts, item.1 = t :: ts ∧ t ≠ .punct .closeBracket) :
    Attempts (Parser.valueWith true inner)
      (.punct .openBracket :: (items.flatMap (·.1) ++ [.punct .closeBracket])) (fun _ => True)
      stuck True := by
  let chunks := items.map fun item => (item.1, True)
  have hitems : Attempts (Parser.itemsUntil .closeBracket inner)
      (chunks.flatMap (·.1) ++ [.punct .closeBracket]) (fun _ => True) stuck
      (∀ chunk ∈ chunks, chunk.2) := by
    refine attempts_itemsUntil (fun chunk hc => ?_) (fun chunk hc => ?_) (fun _ _ _ _ _ => trivial)
      (fun _ _ => trivial) (fun _ h => False.elim h) stuck
    · obtain ⟨item, hi, rfl⟩ := List.mem_map.mp hc
      exact h item hi
    · obtain ⟨item, hi, rfl⟩ := List.mem_map.mp hc
      exact hhead item hi
  rw [List.flatMap_map] at hitems
  exact attempts_listValue (hitems.imp fun _ => trivial)

theorem attempts_object {fields : List (Name × List Token × Value)}
    (h : ∀ field ∈ fields, Attempts inner field.2.1 (fun _ => True) (fun _ => False) True) :
    Attempts (Parser.valueWith true inner)
      (.punct .openBrace :: (fields.flatMap (fun field =>
        .name field.1 :: .punct .colon :: field.2.1) ++ [.punct .closeBrace])) (fun _ => True)
      stuck True := by
  let chunks := fields.map fun field => (Token.name field.1 :: .punct .colon :: field.2.1, True)
  have hitems : Attempts (Parser.itemsUntil .closeBrace (Parser.objectField inner))
      (chunks.flatMap (·.1) ++ [.punct .closeBrace]) (fun _ => True) stuck
      (∀ chunk ∈ chunks, chunk.2) := by
    refine attempts_itemsUntil (fun chunk hc => ?_) (fun chunk hc => ?_) (fun _ _ _ _ _ => trivial)
      (fun _ _ => trivial) (fun _ h => False.elim h) stuck
    · obtain ⟨field, hf, rfl⟩ := List.mem_map.mp hc
      exact attempts_objectField field.1 (h field hf)
    · obtain ⟨field, hf, rfl⟩ := List.mem_map.mp hc
      exact ⟨_, _, rfl, by simp⟩
  rw [List.flatMap_map] at hitems
  exact attempts_objectValue (hitems.imp fun _ => trivial)

end Values

/-- A literal is read, or it is too deep. -/
theorem attempts_value {depth : Nat} {tokens : List Token} {value : Value}
    (h : Literal depth tokens value) (limit : Nat) :
    Attempts (Parser.valueAt true limit) tokens (fun _ => True) (fun _ => False) True := by
  have hleaf : ∀ {tokens value}, (∀ limit, Literal limit tokens value) → ∀ limit,
      Attempts (Parser.valueAt true limit) tokens (fun _ => True) (fun _ => False) True := by
    intro tokens value h limit
    exact (takes_value (h limit)).attempts fun _ _ => trivial
  induction h generalizing limit with
  | int numeral => exact hleaf (fun _ => .int numeral) limit
  | float numeral => exact hleaf (fun _ => .float numeral) limit
  | string text => exact hleaf (fun _ => .string text) limit
  | blockString text => exact hleaf (fun _ => .blockString text) limit
  | true => exact hleaf (fun _ => .true) limit
  | false => exact hleaf (fun _ => .false) limit
  | null => exact hleaf (fun _ => .null) limit
  | enum h => exact hleaf (fun _ => .enum h) limit
  | emptyList => exact hleaf (fun _ => .emptyList) limit
  | emptyObject => exact hleaf (fun _ => .emptyObject) limit
  | @list depth items h ih =>
    have hhead : ∀ item ∈ items, ∃ t ts, item.1 = t :: ts ∧ t ≠ .punct .closeBracket :=
      fun item hi => (h item hi).head
    cases limit with
    | zero => exact attempts_list (fun item _ => attempts_tooDeep item.1) hhead
    | succ limit => exact attempts_list (fun item hi => ih item hi limit) hhead
  | @object depth fields h ih =>
    cases limit with
    | zero => exact attempts_object fun field _ => attempts_tooDeep field.2.1
    | succ limit => exact attempts_object fun field hf => ih field hf limit

/-! ## 6. Documents -/

/-- The definitions that lexemes are read as, one after the other. -/
inductive Parses : List Lexeme → Document → Prop where
  | nil : Parses [] []
  | cons {lexemes rest : List Lexeme} {first : Definition} {document : Document}
      (h : Parser.definition lexemes = .ok (first, rest)) (hr : Parses rest document) :
      Parses lexemes (first :: document)

/-- What is known of a result is what it was given for. -/
theorem yields_self {α : Type} (parser : Parser α) (lexemes : List Lexeme) :
    Yields parser lexemes fun a left => parser lexemes = .ok (a, left) := fun _ _ h => h

theorem yields_definitions (fuel : Nat) (lexemes : List Lexeme) :
    Yields (Parser.loop (do return (← Parser.peek).isSome) Parser.definition fuel) lexemes
      fun document left => left = [] → Parses lexemes document := by
  induction fuel generalizing lexemes with
  | zero =>
    refine yields_pure ?_
    rintro rfl
    exact .nil
  | succ fuel ih =>
    unfold Parser.loop
    cases lexemes with
    | nil =>
      have hend : (do return (← Parser.peek).isSome : Parser Bool) [] = .ok (false, []) := rfl
      exact Yields.of_ok hend (yields_pure fun _ => .nil)
    | cons lexeme lexemes =>
      have hmore : (do return (← Parser.peek).isSome : Parser Bool) (lexeme :: lexemes) =
          .ok (true, lexeme :: lexemes) := rfl
      refine Yields.of_ok hmore ?_
      refine (yields_self Parser.definition _).bind fun first rest hfirst => ?_
      refine (ih rest).bind fun document left hleft => ?_
      exact yields_pure fun h => .cons hfirst (hleft h)

theorem yields_document (lexemes : List Lexeme) :
    Yields Parser.document lexemes fun document left => left = [] → Parses lexemes document := by
  unfold Parser.document
  refine (yields_self Parser.definition _).bind fun first rest hfirst => ?_
  have hmore : Yields (Parser.repeated (do return (← Parser.peek).isSome) Parser.definition) rest
      fun document left => left = [] → Parses rest document := yields_definitions rest.length rest
  refine hmore.bind fun document left hleft => ?_
  exact yields_pure fun h => .cons hfirst (hleft h)

/-- A text that is a document is read definition by definition. -/
theorem parses_of_ofLexemes {lexemes : List Lexeme} {document : Document}
    (h : Document.ofLexemes lexemes = .ok document) : Parses lexemes document := by
  unfold Document.ofLexemes at h
  cases hd : Parser.document lexemes with
  | error error =>
    rw [hd] at h
    cases h
  | ok found =>
    obtain ⟨read, left⟩ := found
    have hall := yields_document lexemes read left hd
    rw [hd] at h
    cases left with
    | nil =>
      cases h
      exact hall rfl
    | cons lexeme left => cases h

/-- After a string, the keyword of a definition has to come next. -/
theorem yields_definition_text {text : String} {flag : Bool} {rest : List Lexeme}
    {post : Definition → List Lexeme → Prop}
    (h : Yields (do Parser.typeSystemDefinition (some text) (← Parser.name "a definition")) rest
      post) :
    Yields Parser.definition (⟨.string text, flag⟩ :: rest) post := by
  have hbrace : Parser.atPunct .openBrace (⟨.string text, flag⟩ :: rest) =
      .ok (false, ⟨.string text, flag⟩ :: rest) := rfl
  have htext : Parser.description? (⟨.string text, flag⟩ :: rest) = .ok (some text, rest) := rfl
  unfold Parser.definition
  refine Yields.of_ok hbrace ?_
  refine Yields.of_ok htext ?_
  refine (yields_self Parser.noComma rest).bind fun _ left hleft => ?_
  have hsame : left = rest := by
    unfold Parser.noComma at hleft
    split at hleft
    · cases hleft
    · exact (Prod.mk.inj (Except.ok.inj hleft)).2.symm
  rw [hsame]
  exact h

theorem yields_definition_string (text : String) (flag : Bool) (rest : List Lexeme) :
    Yields Parser.definition (⟨.string text, flag⟩ :: rest)
      fun _ _ => ∃ word, next rest = some (.name word) := by
  apply yields_definition_text
  have hname : Yields (Parser.name "a definition") rest
      fun _ _ => ∃ word, next rest = some (.name word) :=
    yields_name fun name flag left h => ⟨name, by rw [h]; rfl⟩
  exact hname.bind fun _ _ hword _ _ _ => hword

theorem Parses.first {lexemes : List Lexeme} {document : Document} (h : Parses lexemes document)
    (hne : lexemes ≠ []) :
    ∃ first rest document', document = first :: document' ∧
      Parser.definition lexemes = .ok (first, rest) ∧ Parses rest document' := by
  cases h with
  | nil => exact absurd rfl hne
  | cons h hr => exact ⟨_, _, _, rfl, h, hr⟩

/-- What is read first is what the parser takes first. -/
theorem Parses.of_ok {lexemes rest : List Lexeme} {first : Definition} {document : Document}
    (h : Parser.definition lexemes = .ok (first, rest)) (hne : lexemes ≠ [])
    (hp : Parses lexemes document) :
    ∃ document', document = first :: document' ∧ Parses rest document' := by
  obtain ⟨other, left, document', rfl, hother, hr⟩ := hp.first hne
  rw [h] at hother
  cases hother
  exact ⟨document', rfl, hr⟩

/-- After some definitions, what is read begins where they end. -/
theorem Parses.after {chunks : List (List Token × Definition)}
    (h : ∀ chunk ∈ chunks, Defines chunk) {flag : Bool} {t : Token} {ts : List Token}
    (ht : t ≠ .comma) (hout : outside (some t)) {document : Document}
    (hp : Parses (Lexeme.ofTokens flag (chunks.flatMap (·.1) ++ t :: ts)) document) :
    ∃ flag' document', Parses (⟨t, flag'⟩ :: Lexeme.ofTokens false ts) document' := by
  induction chunks generalizing flag document with
  | nil =>
    rw [List.flatMap_nil, List.nil_append, Lexeme.ofTokens.eq_3 _ _ _ ht] at hp
    exact ⟨flag, document, hp⟩
  | cons chunk chunks ih =>
    have hrest : ∀ other ∈ chunks, Defines other := fun c hc => h c (List.mem_cons_of_mem _ hc)
    obtain ⟨first, more, hfirst, hcomma, -⟩ := (h chunk List.mem_cons_self).head
    rw [List.flatMap_cons, List.append_assoc] at hp
    obtain ⟨flag', hsplit⟩ := ofTokens_append flag chunk.1 (chunks.flatMap (·.1) ++ t :: ts)
    rw [hsplit] at hp
    have hnext : outside (next (Lexeme.ofTokens flag' (chunks.flatMap (·.1) ++ t :: ts))) := by
      cases chunks with
      | nil =>
        rw [List.flatMap_nil, List.nil_append, Lexeme.ofTokens.eq_3 _ _ _ ht]
        exact hout
      | cons other chunks =>
        obtain ⟨u, us, hu, hcomma, hout⟩ := (hrest other List.mem_cons_self).head
        rw [List.flatMap_cons, hu, List.cons_append, List.cons_append,
          Lexeme.ofTokens.eq_3 _ _ _ hcomma]
        exact hout
    have htake := (h chunk List.mem_cons_self).takes flag _ hnext
    have hne : Lexeme.ofTokens flag chunk.1 ++
        Lexeme.ofTokens flag' (chunks.flatMap (·.1) ++ t :: ts) ≠ [] := by
      rw [hfirst, Lexeme.ofTokens.eq_3 _ _ _ hcomma]
      exact List.cons_ne_nil _ _
    obtain ⟨document', -, hr⟩ := hp.of_ok htake hne
    exact ih hrest hr

end MockGraph.Syntax
