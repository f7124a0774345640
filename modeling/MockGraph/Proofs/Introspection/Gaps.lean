import MockGraph.Proofs.Introspection.Ignored
import MockGraph.Proofs.Introspection.References

/-!
# `Proofs/Introspection/Gaps`: definitions with gaps

`Proofs/Introspection/References` follows the parser through one reference that ends in nothing. Here
are the definitions around it: members in braces, the list of interfaces of a type, the members of a
union, for each kind of entry in an answer.

`TypeEntry.WellNamed.read` puts it together: the definition that is printed for a well-named entry is
an attempt which is sound if the references in it are. `noticed` says which ones count: in a list of
interfaces or members a gap in front of the others is passed over, because the grammar allows a
separator there.
-/

set_option autoImplicit false

namespace MockGraph.Introspection

open Syntax

/-! ## 1. Definitions -/

theorem Astray.directives {lexemes : List Lexeme} (h : Astray lexemes) :
    Parser.directives true lexemes = .ok ([], lexemes) := by
  refine takes_no_directives [] lexemes rfl ?_
  simpa [notPunct] using h.next_ne (p := .atSign) (by simp)

theorem Astray.enclosed? {α : Type} {lexemes : List Lexeme} (h : Astray lexemes)
    (item : Parser α) :
    Parser.enclosed? .openBrace .closeBrace item lexemes = .ok ([], lexemes) := by
  have hnone : Takes (Parser.enclosed? .openBrace .closeBrace item) [] (notPunct [.openBrace]) [] :=
    @takes_enclosed? _ item _ _ anything [] (by simp) (by simp) trivial
  refine hnone [] lexemes rfl ?_
  simpa [notPunct] using h.next_ne (p := .openBrace) (by simp)

section Definitions

variable {α : Type} {item : Parser α} {tokens more : List Token} {sound sound' : Prop}
  (description : Option String) (name : Name)

/-- The tokens of a part of a definition do not begin with the mark of a directive. -/
def Plain (tokens : List Token) : Prop := tokens.head? ≠ some (.punct .atSign)

theorem Plain.next_ne {lexemes rest : List Lexeme} (h : Plain tokens)
    (hl : lexemes.map (·.token) = tokens) (hrest : next rest ≠ some (.punct .atSign)) :
    next (lexemes ++ rest) ≠ some (.punct .atSign) := by
  rw [next_append hl]
  cases tokens with
  | nil => exact hrest
  | cons t ts => exact h

/-- A type whose body is made from what follows the directives. -/
theorem attempts_bare {β : Type} {inner : Parser β} (build : β → TypeBody)
    (h : Attempts inner tokens Boundary Astray sound) (hp : Plain tokens) :
    Attempts (do
      let type ← Parser.name "a type name"
      let directives ← Parser.directives true
      return some (⟨description, type, directives, build (← inner)⟩ : TypeDefinition))
      (.name name :: tokens) Boundary Astray sound := by
  have hbody : Attempts (do
      return some (⟨description, name, [], build (← inner)⟩ : TypeDefinition)) tokens Boundary
        Astray sound :=
    h.map fun b => some (TypeDefinition.mk description name [] (build b))
  have hrest : Attempts (do
      let directives ← Parser.directives true
      return some (⟨description, name, directives, build (← inner)⟩ : TypeDefinition))
      ([] ++ tokens) Boundary Astray sound := by
    refine takes_no_directives.before hbody fun lexemes rest hl hrest => ?_
    simpa [notPunct] using hp.next_ne hl (hrest.outside.1 .atSign)
  exact (takes_name name "a type name").before hrest fun _ _ _ _ => trivial

theorem plain_inside (chunks : List (List Token × Prop)) :
    Plain (inside .openBrace .closeBrace chunks) := by
  cases chunks with
  | nil => simp [Plain, inside]
  | cons chunk chunks => simp [Plain, inside]

/-- An object or interface. What interfaces stop at is where the rest stops, too. -/
theorem attempts_fielded (build : List Name → List FieldDefinition → TypeBody)
    (types : List TypeReference) {chunks : List (List Token × Prop)}
    (h : Attempts Parser.fields (inside .openBrace .closeBrace chunks)
      (fun rest => next rest ≠ some (.punct .openBrace)) Astray sound) :
    Attempts (do
      let type ← Parser.name "a type name"
      let interfaces ← Parser.interfaces
      let directives ← Parser.directives true
      let fields ← Parser.fields
      return some (⟨description, type, directives, build interfaces fields⟩ : TypeDefinition))
      (.name name :: (referenceTokens (.name "implements") .ampersand types ++
        inside .openBrace .closeBrace chunks)) Boundary Astray
      ((∀ t ∈ noticed types, t.endName?.isSome) ∧ sound) := by
  have hfields : ∀ interfaces, Attempts (do
      let fields ← Parser.fields
      return some (⟨description, name, [], build interfaces fields⟩ : TypeDefinition))
        (inside .openBrace .closeBrace chunks) Boundary Astray sound := by
    intro interfaces lexemes rest hl hrest
    exact (h.map fun fields => some (TypeDefinition.mk description name [] (build interfaces fields)))
      lexemes rest hl (hrest.outside.1 .openBrace)
  have hmarks : ∀ interfaces, Attempts (do
      let directives ← Parser.directives true
      let fields ← Parser.fields
      return some (⟨description, name, directives, build interfaces fields⟩ : TypeDefinition))
        ([] ++ inside .openBrace .closeBrace chunks) Boundary Astray sound := by
    intro interfaces
    refine takes_no_directives.before (hfields interfaces) fun lexemes rest hl hrest => ?_
    simpa [notPunct] using (plain_inside chunks).next_ne hl (hrest.outside.1 .atSign)
  have hinterfaces : Attempts (do
      let interfaces ← Parser.interfaces
      let directives ← Parser.directives true
      let fields ← Parser.fields
      return some (⟨description, name, directives, build interfaces fields⟩ : TypeDefinition))
        (referenceTokens (.name "implements") .ampersand types ++
          ([] ++ inside .openBrace .closeBrace chunks)) Boundary Astray
        ((∀ t ∈ noticed types, t.endName?.isSome) ∧ sound) := by
    refine (attempts_interfaces types).bind hmarks (fun lexemes rest hl hrest => ?_)
      (fun interfaces left hleft => ?_)
    · cases chunks with
      | nil =>
        rw [List.map_eq_nil_iff.mp hl]
        exact .inr hrest
      | cons chunk chunks => exact .inl (next_of_map hl)
    · refine Yields.of_ok hleft.directives ?_
      exact Yields.of_ok (hleft.enclosed? Parser.fieldDefinition) (yields_pure hleft)
  exact (takes_name name "a type name").before hinterfaces fun _ _ _ _ => trivial

end Definitions

/-! ## 2. Well-named answers -/

structure Field.WellNamed (field : Field) : Prop where
  name : ∃ name, field.name = some name ∧ isName name
  type : ∀ type ∈ field.type, type.WellNamed

structure EnumValue.WellNamed (value : EnumValue) : Prop where
  name : ∃ name, value.name = some name ∧ isName name

structure InputField.WellNamed (field : InputField) : Prop where
  name : isName field.name
  type : field.type.WellNamed
  default : ∃ depth value, DefaultText depth field.default value

/-- An entry of which a definition is printed. -/
structure TypeEntry.Prints (entry : TypeEntry) (name : String) (kind : Kind) : Prop where
  hasName : entry.name = some name
  own : isBuiltIn name = false
  hasKind : entry.kind = some kind
  isNamed : kind.isNamed = true

/-- The names in an entry are names of the language, and its default values are literals. -/
structure TypeEntry.WellNamed (entry : TypeEntry) : Prop where
  name : ∀ name kind, entry.Prints name kind → isName name
  fields : ∀ field ∈ entry.fields, field.WellNamed
  inputFields : ∀ field ∈ entry.inputFields, field.WellNamed
  enumValues : ∀ value ∈ entry.enumValues, value.WellNamed
  interfaces : ∀ type ∈ entry.interfaces, type.WellNamed
  members : ∀ type ∈ entry.members, type.WellNamed

structure SchemaEntry.WellNamed (schema : SchemaEntry) : Prop where
  roots : ∀ root ∈ schema.rootTypes, isName root.2
  types : ∀ entry, some entry ∈ schema.types → entry.WellNamed

/-- The references that are printed for an entry, without those that the grammar passes over. A
field without a type counts as one. -/
def TypeEntry.noticed (entry : TypeEntry) : Kind → List (Option TypeReference)
  | .object | .interface =>
    (Introspection.noticed entry.interfaces).map some ++ entry.fields.map (·.type)
  | .union => (Introspection.noticed entry.members).map some
  | .inputObject => entry.inputFields.map fun field => some field.type
  | _ => []

/-! ## 3. Members -/

/-- The text of a member of a type, scanned and attempted. -/
structure Member {α : Type} (text : String) (item : Parser α) (follow : List Lexeme → Prop)
    (raw : List Token) (sound : Prop) : Prop where
  closed : Closed text raw
  attempts : Attempts item (significant raw) follow Halted sound
  head : ∃ t ts, raw = t :: ts ∧ t ≠ .comma ∧ ∀ p, t ≠ .punct p
  before : ∀ lexemes rest, lexemes.map (·.token) = significant raw → follow (lexemes ++ rest)

theorem head_described (description : Option String) (name : Name) (more : List Token) :
    ∃ t ts, descriptionTokens description ++ .name name :: more = t :: ts ∧ t ≠ .comma ∧
      ∀ p, t ≠ .punct p := by
  cases description with
  | none => exact ⟨_, _, rfl, by simp, by simp⟩
  | some text => exact ⟨_, _, rfl, by simp, by simp⟩

/-- A member with a type comes after another one. -/
theorem memberNext_described {description : Option String} {name : Name} {more : List Token}
    {lexemes : List Lexeme} (rest : List Lexeme) (hl : lexemes.map (·.token) =
      descriptionTokens description ++ .name name :: .punct .colon :: more) :
    MemberNext (lexemes ++ rest) := by
  cases description with
  | none =>
    obtain ⟨⟨token, flag⟩, others, rfl, rfl, hothers⟩ := List.map_eq_cons_iff.mp hl
    exact .inr (.inr ⟨name, flag, others ++ rest, rfl, next_of_map hothers⟩)
  | some text => exact .inr (.inl ⟨text, next_of_map hl⟩)

theorem pending_type {type? : Option TypeReference} (h : ∀ type ∈ type?, type.WellNamed) :
    Pending ((type?.map TypeReference.render).getD "") (typeTokens type?) := by
  cases type? with
  | none => exact closed_empty.pending
  | some type => exact (h type rfl).pending

theorem significant_typeTokens (type? : Option TypeReference) :
    significant (typeTokens type?) = typeTokens type? := by
  cases type? with
  | none => rfl
  | some type => exact type.significant_tokens

/-- A member begins with its description and its name. -/
theorem member_described {α : Type} {item : Parser α} {follow : List Lexeme → Prop} {name : Name}
    {rest : String} {raw : List Token} {sound : Prop} (description : Option String)
    (hn : isName name) (h : Closed rest raw) (hd : Delimited rest)
    (ha : Attempts item (descriptionTokens (spoken description) ++ .name name :: significant raw)
      follow Halted sound)
    (hb : ∀ lexemes rest, lexemes.map (·.token) =
      descriptionTokens (spoken description) ++ .name name :: significant raw →
        follow (lexemes ++ rest)) :
    ∃ raw, Member (descriptionLine "  " description ++ "  " ++ name ++ rest) item follow raw
      sound := by
  have hraw : significant (descriptionTokens (spoken description) ++ .name name :: raw) =
      descriptionTokens (spoken description) ++ .name name :: significant raw := by
    simp
  refine ⟨descriptionTokens (spoken description) ++ .name name :: raw,
    closed_described description hn h hd, hraw ▸ ha, ?_, hraw ▸ hb⟩
  obtain ⟨t, ts, ht, hcomma, hp⟩ := head_described (spoken description) name raw
  exact ⟨t, ts, ht, hcomma, hp⟩

theorem Field.WellNamed.member {field : Field} (h : field.WellNamed) :
    ∃ raw, Member field.render Parser.fieldDefinition MemberNext raw (HasType field.type) := by
  obtain ⟨name, hname, hn⟩ := h.name
  have hrest := closed_colon.append ((pending_type h.type).append_closed
    (closed_deprecation field.deprecated field.reason) (delimited_deprecation _ _))
  have hattempts := attempts_fieldDefinition (spoken field.description) name field.type
    (annotates_deprecation field.deprecated field.reason)
  have hrender : field.render = descriptionLine "  " field.description ++ "  " ++ name ++
      (": " ++ ((field.type.map TypeReference.render).getD "" ++
        (deprecation field.deprecated field.reason ++ "\n"))) := by
    simp only [Field.render, hname, Option.getD_some, String.append_assoc]
  rw [hrender]
  refine member_described field.description hn hrest (delimited_colon.append _) ?_ ?_
  · simpa [significant_typeTokens] using hattempts
  · intro lexemes rest hl
    exact memberNext_described rest hl

theorem EnumValue.WellNamed.member {value : EnumValue} (h : value.WellNamed) :
    ∃ raw, Member value.render Parser.enumValue (fun rest => apart (next rest)) raw True := by
  obtain ⟨name, hname, hn⟩ := h.name
  have hattempts := attempts_enumValue (spoken value.description) name
    (annotates_deprecation value.deprecated value.reason)
  have hrender : value.render = descriptionLine "  " value.description ++ "  " ++ name ++
      (deprecation value.deprecated value.reason ++ "\n") := by
    simp only [EnumValue.render, hname, Option.getD_some, String.append_assoc]
  rw [hrender]
  refine member_described value.description hn (closed_deprecation _ _)
    (delimited_deprecation _ _) ?_ ?_
  · simpa using hattempts
  · intro lexemes rest hl
    obtain ⟨t, ts, ht, -, hp⟩ := head_described (spoken value.description) name
      (significant (deprecationTokens value.deprecated value.reason))
    rw [next_of_map (hl.trans ht)]
    exact fun p _ e => hp p (Option.some.inj e)

theorem DefaultText.closed_any {depth : Nat} {text : Option String} {value : Option Value}
    (h : DefaultText depth text value) :
    ∃ raw, Closed (defaultText text ++ "\n") raw ∧ Delimited (defaultText text ++ "\n") ∧
      AnyDefault (significant raw) := by
  cases h with
  | none => exact ⟨[], closed_empty.append closed_newline, ⟨_, _, rfl, rfl⟩, .none⟩
  | @some text raw value hs hl =>
    refine ⟨[.punct .equals] ++ raw, ?_, (delimited_equals.append _).append _, ?_⟩
    · rw [defaultText, String.append_assoc]
      exact closed_equals.append (closed_line hs)
    · rw [List.singleton_append, significant_cons (by simp)]
      exact .some hl

theorem InputField.WellNamed.member {field : InputField} (h : field.WellNamed) :
    ∃ raw, Member field.render Parser.inputValue MemberNext raw (HasType (some field.type)) := by
  obtain ⟨depth, value, htext⟩ := h.default
  obtain ⟨raw, hclosed, hdelimited, hdefault⟩ := htext.closed_any
  have hrest := closed_colon.append (h.type.pending.append_closed hclosed hdelimited)
  have hattempts := attempts_inputValue (spoken field.description) field.name field.type hdefault
  rw [InputField.render_eq]
  refine member_described field.description h.name hrest (delimited_colon.append _) ?_ ?_
  · simpa [typeTokens] using hattempts
  · intro lexemes rest hl
    exact memberNext_described rest hl

section Blocks

variable {α γ : Type} {render : γ → String} {item : Parser α} {follow : List Lexeme → Prop}
  {sound : γ → Prop} {entries : List γ}

/-- Members after each other, with the condition on each that it is sound. -/
theorem members_read
    (h : ∀ entry ∈ entries, ∃ raw, Member (render entry) item follow raw (sound entry)) :
    ∃ chunks : List (List Token × Prop),
      Closed (String.join (entries.map render)) (chunks.flatMap (·.1)) ∧
      (∀ chunk ∈ chunks, ∃ text, Member text item follow chunk.1 chunk.2) ∧
      (entries = [] ↔ chunks = []) ∧
      ((∀ chunk ∈ chunks, chunk.2) → ∀ entry ∈ entries, sound entry) := by
  induction entries with
  | nil => exact ⟨[], closed_empty, by simp, by simp, by simp⟩
  | cons entry entries ih =>
    obtain ⟨hentry, hentries⟩ := List.forall_mem_cons.mp h
    obtain ⟨raw, hmember⟩ := hentry
    obtain ⟨chunks, hjoin, hmembers, -, hsound⟩ := ih hentries
    refine ⟨(raw, sound entry) :: chunks, ?_, ?_, by simp, ?_⟩
    · rw [List.map_cons, String.join_cons, List.flatMap_cons]
      exact hmember.closed.append hjoin
    · exact List.forall_mem_cons.mpr ⟨⟨_, hmember⟩, hmembers⟩
    · intro hall
      obtain ⟨hfirst, hrest⟩ := List.forall_mem_cons.mp hall
      exact List.forall_mem_cons.mpr ⟨hfirst, hsound hrest⟩

/-- Members in braces. -/
theorem block_read
    (h : ∀ entry ∈ entries, ∃ raw, Member (render entry) item follow raw (sound entry))
    (hclose : ∀ rest, next rest = some (.punct .closeBrace) → follow rest)
    (hfails : ∀ left, Halted left → Yields item left fun _ _ => False) :
    ∃ (raw : List Token) (chunks : List (List Token × Prop)),
      Closed (block (entries.map render)) raw ∧
      significant raw = inside .openBrace .closeBrace chunks ∧
      Attempts (Parser.enclosed? .openBrace .closeBrace item) (inside .openBrace .closeBrace chunks)
        (fun rest => next rest ≠ some (.punct .openBrace)) Astray
        (∀ entry ∈ entries, sound entry) := by
  obtain ⟨chunks, hjoin, hmembers, hempty, hsound⟩ := members_read h
  refine ⟨_, _, closed_block (by rw [List.map_eq_nil_iff]; exact hempty) hjoin,
    significant_inside _ _ chunks, Attempts.imp ?_ hsound⟩
  have hall := @attempts_enclosed? _ item .closeBrace Halted .openBrace follow
    (chunks.map fun chunk => (significant chunk.1, chunk.2)) ?_ ?_ ?_ hclose ?_ Astray
  · refine hall.imp fun h chunk hc => ?_
    exact h (significant chunk.1, chunk.2) (List.mem_map_of_mem hc)
  · intro _ hc
    obtain ⟨chunk, hchunk, rfl⟩ := List.mem_map.mp hc
    obtain ⟨text, hmember⟩ := hmembers chunk hchunk
    exact hmember.attempts
  · intro _ hc
    obtain ⟨chunk, hchunk, rfl⟩ := List.mem_map.mp hc
    obtain ⟨text, hmember⟩ := hmembers chunk hchunk
    obtain ⟨t, ts, ht, hcomma, hp⟩ := hmember.head
    exact ⟨t, significant ts, by rw [ht, significant_cons hcomma], hp .closeBrace⟩
  · intro _ hc
    obtain ⟨chunk, hchunk, rfl⟩ := List.mem_map.mp hc
    obtain ⟨text, hmember⟩ := hmembers chunk hchunk
    exact hmember.before
  · intro left hleft
    exact ⟨hleft.next_ne (by simp), hfails left hleft⟩

end Blocks

/-! ## 4. Types -/

theorem significant_referenceTokens {first : Token} (h : first ≠ .comma) (separator : Punctuator)
    (types : List TypeReference) :
    significant (referenceTokens first separator types) = referenceTokens first separator types := by
  cases types with
  | nil => rfl
  | cons type types =>
    have hmore : ∀ t : TypeReference, significant (.punct separator :: t.tokens) =
        .punct separator :: t.tokens := by
      intro t
      rw [significant_cons (by simp), t.significant_tokens]
    rw [referenceTokens, significant_cons h, significant_append, significant_flatMap,
      type.significant_tokens]
    simp only [hmore]

theorem plain_referenceTokens {first : Token} (h : first ≠ .punct .atSign) (separator : Punctuator)
    (types : List TypeReference) {more : List Token} (hm : Plain more) :
    Plain (referenceTokens first separator types ++ more) := by
  cases types with
  | nil => exact hm
  | cons type types => exact fun e => h (Option.some.inj e)

/-- The definition of a type, scanned, and attempted after its keyword. -/
structure TypeEntry.Read (entry : TypeEntry) (name : String) (kind : Kind) (word : String)
    (raw : List Token) : Prop where
  keyword : word ∈ typeWords
  closed : Closed (entry.body name kind) (.name word :: .name name :: raw)
  plain : Plain (significant raw)
  attempts : ∀ description, Attempts (Parser.typeDefinition description word)
    (.name name :: significant raw) Boundary Astray (∀ type? ∈ entry.noticed kind, HasType type?)

section Types

variable {entry : TypeEntry} {name : String}

theorem TypeEntry.WellNamed.fields_read (h : entry.WellNamed) :
    ∃ (raw : List Token) (chunks : List (List Token × Prop)),
      Closed (block (entry.fields.map Field.render)) raw ∧
      significant raw = inside .openBrace .closeBrace chunks ∧
      Attempts Parser.fields (inside .openBrace .closeBrace chunks)
        (fun rest => next rest ≠ some (.punct .openBrace)) Astray
        (∀ field ∈ entry.fields, HasType field.type) := by
  refine block_read (fun field hf => (h.fields field hf).member) (fun rest hrest => .inl hrest) ?_
  intro left hleft
  exact hleft.yields_item

/-- An object or interface, by its keyword. -/
theorem TypeEntry.WellNamed.fielded_read (h : entry.WellNamed) (hn : isName name)
    {keyword word : String} (hk : Closed keyword [.name word])
    (build : List Name → List FieldDefinition → TypeBody) :
    ∃ raw, Closed (keyword ++ name ++ references " implements " " & " entry.interfaces ++
        block (entry.fields.map Field.render)) (.name word :: .name name :: raw) ∧
      Plain (significant raw) ∧
      ∀ description : Option String, Attempts (do
        let type ← Parser.name "a type name"
        let interfaces ← Parser.interfaces
        let directives ← Parser.directives true
        let fields ← Parser.fields
        return some (⟨description, type, directives, build interfaces fields⟩ : TypeDefinition))
        (.name name :: significant raw) Boundary Astray
        (∀ type? ∈ (Introspection.noticed entry.interfaces).map some ++ entry.fields.map (·.type),
          HasType type?) := by
  obtain ⟨raw, chunks, hclosed, hraw, hattempts⟩ := h.fields_read
  have hfirst : Closed " implements " [.name "implements"] := fun _ _ => rfl
  have hnext : Closed " & " [.punct .ampersand] := fun _ _ => rfl
  have hdelimited := delimited_block (entry.fields.map Field.render)
  have hlist := closed_references h.interfaces hfirst hnext ⟨_, _, rfl, rfl⟩ hclosed hdelimited
  have hsignificant : significant (referenceTokens (.name "implements") .ampersand entry.interfaces ++
      raw) = referenceTokens (.name "implements") .ampersand entry.interfaces ++
        inside .openBrace .closeBrace chunks := by
    rw [significant_append, significant_referenceTokens (by simp), hraw]
  refine ⟨referenceTokens (.name "implements") .ampersand entry.interfaces ++ raw, ?_, ?_, ?_⟩
  · rw [String.append_assoc]
    exact closed_defined hk hn hlist
      (delimited_references " & " entry.interfaces ⟨_, _, rfl, rfl⟩ hdelimited)
  · rw [hsignificant]
    exact plain_referenceTokens (by simp) _ _ (plain_inside chunks)
  · intro description
    rw [hsignificant]
    refine (attempts_fielded description name build entry.interfaces hattempts).imp fun hall => ?_
    rw [List.forall_mem_append, List.forall_mem_map, List.forall_mem_map]
    exact hall

/-- A type with nothing but members in braces, by its keyword. -/
theorem braced_read {α γ : Type} {render : γ → String} {item : Parser α}
    {follow : List Lexeme → Prop} {sound : γ → Prop} {entries : List γ} (hn : isName name)
    {keyword word : String} (hk : Closed keyword [.name word]) (build : List α → TypeBody)
    (h : ∀ entry ∈ entries, ∃ raw, Member (render entry) item follow raw (sound entry))
    (hclose : ∀ rest, next rest = some (.punct .closeBrace) → follow rest)
    (hfails : ∀ left, Halted left → Yields item left fun _ _ => False) :
    ∃ raw, Closed (keyword ++ name ++ block (entries.map render)) (.name word :: .name name :: raw) ∧
      Plain (significant raw) ∧
      ∀ description : Option String, Attempts (do
        let type ← Parser.name "a type name"
        let directives ← Parser.directives true
        return some (⟨description, type, directives,
          build (← Parser.enclosed? .openBrace .closeBrace item)⟩ : TypeDefinition))
        (.name name :: significant raw) Boundary Astray (∀ entry ∈ entries, sound entry) := by
  obtain ⟨raw, chunks, hclosed, hraw, hattempts⟩ := block_read h hclose hfails
  refine ⟨raw, closed_defined hk hn hclosed (delimited_block _), ?_, fun description => ?_⟩
  · rw [hraw]
    exact plain_inside chunks
  · rw [hraw]
    refine attempts_bare description name build ?_ (plain_inside chunks)
    exact fun lexemes rest hl hrest => hattempts lexemes rest hl (hrest.outside.1 .openBrace)

theorem TypeEntry.WellNamed.union_read (h : entry.WellNamed) (hn : isName name) :
    entry.Read name .union "union" (referenceTokens (.punct .equals) .pipe entry.members) := by
  have hword : Closed "union " [.name "union"] := fun _ _ => rfl
  have hnext : Closed " | " [.punct .pipe] := fun _ _ => rfl
  have hlist := closed_references h.members closed_equals hnext ⟨_, _, rfl, rfl⟩ closed_newline
    delimited_newline
  rw [List.append_nil] at hlist
  have hplain : Plain (referenceTokens (.punct .equals) .pipe entry.members ++ []) :=
    plain_referenceTokens (by simp) .pipe entry.members (by simp [Plain])
  rw [List.append_nil] at hplain
  have hsignificant := @significant_referenceTokens (.punct .equals) (by simp) .pipe entry.members
  refine ⟨by simp [typeWords], ?_, by rwa [hsignificant], fun description => ?_⟩
  · rw [TypeEntry.body, String.append_assoc]
    exact closed_defined hword hn hlist
      (delimited_references " | " entry.members delimited_equals delimited_newline)
  · rw [hsignificant]
    refine (attempts_bare description name .union (attempts_members entry.members) hplain).imp ?_
    intro hall
    exact List.forall_mem_map.mpr hall

/-- The definition that is printed for an entry, by its kind. -/
theorem TypeEntry.WellNamed.read (h : entry.WellNamed) {kind : Kind} (hp : entry.Prints name kind) :
    ∃ word raw, entry.Read name kind word raw := by
  have hn := h.name name kind hp
  have hnamed := hp.isNamed
  cases kind with
  | list | nonNull | other => cases hnamed
  | scalar =>
    have hword : Closed "scalar " [.name "scalar"] := fun _ _ => rfl
    refine ⟨"scalar", [], by simp [typeWords], closed_defined hword hn closed_newline
      delimited_newline, by simp [Plain], fun description => ?_⟩
    have htakes := takes_typeDefinition description name .scalar
    exact (htakes.attempts fun _ hrest => hrest.outside).imp fun _ => by simp [noticed]
  | object =>
    have hword : Closed "type " [.name "type"] := fun _ _ => rfl
    obtain ⟨raw, hclosed, hplain, hattempts⟩ := h.fielded_read hn hword .object
    exact ⟨"type", raw, by simp [typeWords], hclosed, hplain, hattempts⟩
  | interface =>
    have hword : Closed "interface " [.name "interface"] := fun _ _ => rfl
    obtain ⟨raw, hclosed, hplain, hattempts⟩ := h.fielded_read hn hword .interface
    exact ⟨"interface", raw, by simp [typeWords], hclosed, hplain, hattempts⟩
  | union => exact ⟨"union", _, h.union_read hn⟩
  | enum =>
    have hword : Closed "enum " [.name "enum"] := fun _ _ => rfl
    obtain ⟨raw, hclosed, hplain, hattempts⟩ := braced_read hn hword .enum
      (fun value hv => (h.enumValues value hv).member)
      (fun rest hrest => by simp [hrest, apart, notPunct])
      fun _ hleft => hleft.yields_item
    refine ⟨"enum", raw, by simp [typeWords], hclosed, hplain, fun description => ?_⟩
    exact (hattempts description).imp fun _ => by simp [noticed]
  | inputObject =>
    have hword : Closed "input " [.name "input"] := fun _ _ => rfl
    obtain ⟨raw, hclosed, hplain, hattempts⟩ := braced_read hn hword .inputObject
      (fun field hf => (h.inputFields field hf).member) (fun rest hrest => .inl hrest)
      fun _ hleft => hleft.yields_item
    refine ⟨"input", raw, by simp [typeWords], hclosed, hplain, fun description => ?_⟩
    exact (hattempts description).imp fun hall => List.forall_mem_map.mpr hall

end Types

end MockGraph.Introspection
