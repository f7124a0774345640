import MockGraph.Proofs.Introspection.Ignored
import MockGraph.Proofs.Introspection.References

/-!
# `Proofs/Introspection/Passed`: a gap in front of others

In a list of interfaces or members the first reference may write nothing while others follow. What is
left of it is the separator of the second one, and the grammar allows a separator there
(`typeDefinition_leading`). So the list is read as if it began with the second reference:
`ofPayload_of_passed` says that the answer is read as the schema that it describes without such gaps.
-/

set_option autoImplicit false

namespace MockGraph.Introspection

open Syntax

/-! ## 1. Leading separators -/

/-- The keyword of a type with a list of references, and the tokens in front of the first one and
between them. -/
inductive Listed : String → Token → Punctuator → Prop where
  | object : Listed "type" (.name "implements") .ampersand
  | interface : Listed "interface" (.name "implements") .ampersand
  | union : Listed "union" (.punct .equals) .pipe

section Leading

variable {α β : Type} {lexemes more : List Lexeme}

theorem bind_of_ok {parser : Parser α} {after : α → Parser β} {a : α} {rest : List Lexeme}
    (h : parser lexemes = .ok (a, rest)) : (parser >>= after) lexemes = after a rest := by
  show (parser lexemes >>= fun found => after found.1 found.2) = after a rest
  rw [h]
  rfl

theorem bind_congr_left {parser : Parser α} (after : α → Parser β)
    (h : parser lexemes = parser more) : (parser >>= after) lexemes = (parser >>= after) more := by
  show (parser lexemes >>= fun found => after found.1 found.2) = _
  rw [h]
  rfl

theorem separated_leading {separator : Punctuator} {what : String} (flag : Bool)
    (h : next lexemes ≠ some (.punct separator)) :
    Parser.separated separator (Parser.name what) (⟨.punct separator, flag⟩ :: lexemes) =
      Parser.separated separator (Parser.name what) lexemes := by
  have hsome : Parser.punct? separator (⟨.punct separator, flag⟩ :: lexemes) = .ok (true, lexemes) :=
    takes_punct? separator [_] lexemes rfl trivial
  have hnone : Parser.punct? separator lexemes = .ok (false, lexemes) :=
    takes_no_punct? separator [] lexemes rfl (by simpa [notPunct] using h)
  unfold Parser.separated
  rw [bind_of_ok hsome, bind_of_ok hnone]

theorem typeDefinition_leading {word : String} {first : Token} {separator : Punctuator}
    (hl : Listed word first separator) (description : Option String) (name : Name)
    (flag flag' flag'' : Bool) (h : next lexemes ≠ some (.punct separator)) :
    Parser.typeDefinition description word
        (⟨.name name, flag⟩ :: ⟨first, flag'⟩ :: ⟨.punct separator, flag''⟩ :: lexemes) =
      Parser.typeDefinition description word
        (⟨.name name, flag⟩ :: ⟨first, flag'⟩ :: lexemes) := by
  have hname : ∀ rest, Parser.name "a type name" (⟨.name name, flag⟩ :: rest) = .ok (name, rest) :=
    fun rest => takes_name name "a type name" [_] rest rfl trivial
  cases hl with
  | object | interface =>
    have hinterfaces : Parser.interfaces
        (⟨.name "implements", flag'⟩ :: ⟨.punct .ampersand, flag''⟩ :: lexemes) =
          Parser.interfaces (⟨.name "implements", flag'⟩ :: lexemes) := separated_leading flag'' h
    show (Parser.name "a type name" >>= _) _ = (Parser.name "a type name" >>= _) _
    rw [bind_of_ok (hname _), bind_of_ok (hname _)]
    exact bind_congr_left _ hinterfaces
  | union =>
    have hmembers : Parser.members
        (⟨.punct .equals, flag'⟩ :: ⟨.punct .pipe, flag''⟩ :: lexemes) =
          Parser.members (⟨.punct .equals, flag'⟩ :: lexemes) := separated_leading flag'' h
    have hmarks : ∀ rest, Parser.directives true (⟨.punct .equals, flag'⟩ :: rest) =
        .ok ([], ⟨.punct .equals, flag'⟩ :: rest) :=
      fun rest => takes_no_directives [] _ rfl (by simp [notPunct, next])
    show (Parser.name "a type name" >>= _) _ = (Parser.name "a type name" >>= _) _
    rw [bind_of_ok (hname _), bind_of_ok (hname _), bind_of_ok (hmarks _), bind_of_ok (hmarks _)]
    exact bind_congr_left _ hmembers

end Leading

theorem Listed.mem {word : String} {first : Token} {separator : Punctuator}
    (h : Listed word first separator) : word ∈ typeWords := by
  cases h <;> simp [typeWords]

theorem Listed.ne_comma {word : String} {first : Token} {separator : Punctuator}
    (h : Listed word first separator) : first ≠ .comma := by
  cases h <;> simp

theorem typeSystemDefinition_congr {word : String} (h : word ∈ typeWords)
    {description : Option String} {lexemes more : List Lexeme}
    (heq : Parser.typeDefinition description word lexemes =
      Parser.typeDefinition description word more) :
    Parser.typeSystemDefinition description word lexemes =
      Parser.typeSystemDefinition description word more := by
  obtain ⟨hschema, hdirective⟩ := ne_of_typeWords h
  unfold Parser.typeSystemDefinition
  rw [if_neg hschema, if_neg hdirective]
  exact bind_congr_left _ heq

/-- A definition of a type is read the same with a separator in front of the first reference. -/
theorem takesRaw_leading {word : String} {first : Token} {separator : Punctuator}
    (hl : Listed word first separator) {description : Option String} {name second : Name}
    {raw : List Token} {definition : Definition}
    (h : TakesRaw Parser.definition
      (descriptionTokens description ++ .name word :: .name name :: first :: .name second :: raw)
      outside definition) :
    TakesRaw Parser.definition (descriptionTokens description ++ .name word :: .name name :: first ::
      .punct separator :: .name second :: raw) outside definition := by
  intro flag rest hn
  rw [← h flag rest hn]
  have hrest : Parser.typeSystemDefinition description word
      (Lexeme.ofTokens false (.name name :: first :: .punct separator :: .name second :: raw) ++ rest) =
        Parser.typeSystemDefinition description word
          (Lexeme.ofTokens false (.name name :: first :: .name second :: raw) ++ rest) := by
    have htokens : ∀ tokens, Lexeme.ofTokens false (.name name :: first :: tokens) =
        ⟨.name name, false⟩ :: ⟨first, false⟩ :: Lexeme.ofTokens false tokens := by
      intro tokens
      rw [Lexeme.ofTokens.eq_3 _ _ _ (by simp), Lexeme.ofTokens.eq_3 _ _ _ hl.ne_comma]
    rw [htokens, htokens]
    apply typeSystemDefinition_congr hl.mem
    exact typeDefinition_leading hl description name false false false (by simp [next, Lexeme.ofTokens])
  cases description with
  | none =>
    rw [← undescribed_of_typeWords hl.mem] at hrest
    exact hrest
  | some text => exact hrest

/-! ## 2. References -/

theorem noticed_cases (types : List TypeReference) :
    noticed types = types ∨ ∃ gap second rest, types = gap :: second :: rest ∧ gap.tokens = [] ∧
      noticed types = second :: rest := by
  match types with
  | [] => exact .inl rfl
  | [type] => exact .inl rfl
  | gap :: second :: rest =>
    by_cases h : gap.tokens = []
    · exact .inr ⟨gap, second, rest, rfl, h, if_pos h⟩
    · exact .inl (if_neg h)

/-- A reference that writes nothing ends in nothing. -/
theorem TypeReference.endName?_of_tokens {reference : TypeReference} (h : reference.tokens = []) :
    reference.endName? = none := by
  fun_induction tokens reference with
  | case1 name inner ih => cases h
  | case2 name inner ih => simp at h
  | case3 kind name inner hl hn =>
    rw [endName?.eq_3 kind name inner hl hn]
    cases name with
    | none => rfl
    | some name => cases h

theorem wellNamed_of_gap {gap : TypeReference} {types : List TypeReference} {names : List Name}
    (hgap : gap.tokens = []) (h : Names types names) : ∀ type ∈ gap :: types, type.WellNamed := by
  refine List.forall_mem_cons.mpr ⟨?_, h.wellNamed⟩
  intro name hname
  rw [TypeReference.endName?_of_tokens hgap] at hname
  cases hname

/-- With a gap in front, the definition means what it means without. -/
theorem defines_leading {word : String} {first : Token} {separator : Punctuator}
    (hl : Listed word first separator) {gap second : TypeReference} {rest : List TypeReference}
    {names : List Name} {raw : List Token} {body : TypeBody} (description : Option String)
    (name : Name) (hgap : gap.tokens = []) (hn : Names (second :: rest) names)
    (hb : Bodies word (significant (listing first separator names ++ raw)) body) :
    Defines (descriptionTokens description ++ .name word :: .name name ::
      (referenceTokens first separator (gap :: second :: rest) ++ raw),
        .type ⟨description, name, [], body⟩) := by
  cases hn with
  | @cons _ target _ targets hsecond hrest =>
    have htokens : second.tokens = [.name target] := hsecond.tokens_eq
    have hlisting : listing first separator (target :: targets) =
        referenceTokens first separator (second :: rest) :=
      (Names.tokens_eq (.cons hsecond hrest) first separator).symm
    rw [hlisting, referenceTokens, htokens] at hb
    refine ⟨?_, definition_head description hl.mem _⟩
    rw [referenceTokens, hgap, List.flatMap_cons, htokens]
    exact takesRaw_leading hl (takesRaw_definition hb)

/-! ## 3. Entries -/

/-- An entry without a gap in front of other references. -/
def TypeEntry.passed (entry : TypeEntry) : TypeEntry :=
  { entry with
    interfaces := Introspection.noticed entry.interfaces
    members := Introspection.noticed entry.members }

/-- The text of a definition is scanned to the definition of this type, whatever its description. -/
def Reads (text : String) (name : Name) (body : TypeBody) : Prop :=
  ∃ raw, Closed text raw ∧ ∀ description : Option String,
    Defines (descriptionTokens description ++ raw, .type ⟨description, name, [], body⟩)

section Entries

variable {entry : TypeEntry} {name : Name}

theorem reads_leading {word : String} {first : Token} {separator : Punctuator}
    (hl : Listed word first separator) {keyword text : String} (hk : Closed keyword [.name word])
    (hn : isName name) {gap second : TypeReference} {rest : List TypeReference} {names : List Name}
    {raw : List Token} {body : TypeBody} (hgap : gap.tokens = []) (hm : Names (second :: rest) names)
    (hc : Closed text (referenceTokens first separator (gap :: second :: rest) ++ raw))
    (hd : Delimited text) (hb : Bodies word (significant (listing first separator names ++ raw)) body) :
    Reads (keyword ++ name ++ text) name body :=
  ⟨_, closed_defined hk hn hc hd, fun description =>
    defines_leading hl description name hgap hm hb⟩

theorem union_passed {members : List Name} (hn : isName name) {gap second : TypeReference}
    {rest : List TypeReference} (ht : entry.members = gap :: second :: rest) (hgap : gap.tokens = [])
    (hm : Names (second :: rest) members) : Reads (entry.body name .union) name (.union members) := by
  have hword : Closed "union " [.name "union"] := fun _ _ => rfl
  have hnext : Closed " | " [.punct .pipe] := fun _ _ => rfl
  have hlist := closed_references (wellNamed_of_gap hgap hm) closed_equals hnext ⟨_, _, rfl, rfl⟩
    closed_newline delimited_newline
  have hbodies : Bodies "union" (significant (listing (.punct .equals) .pipe members ++ []))
      (.union members) := by
    rw [List.append_nil, significant_listing (by simp)]
    exact .union members
  rw [TypeEntry.body, ht, String.append_assoc]
  exact reads_leading .union hword hn hgap hm hlist
    (delimited_references " | " _ delimited_equals delimited_newline) hbodies

theorem fielded_passed {interfaces : List Name} {fields : List FieldDefinition} (hn : isName name)
    {keyword word : String} (hl : Listed word (.name "implements") .ampersand)
    (hk : Closed keyword [.name word]) (build : List Name → List FieldDefinition → TypeBody)
    (hb : ∀ chunks, Entries Parser.fieldDefinition chunks →
      Bodies word (listing (.name "implements") .ampersand interfaces ++
        inside .openBrace .closeBrace chunks) (build interfaces (chunks.map (·.2))))
    {gap second : TypeReference} {rest : List TypeReference}
    (ht : entry.interfaces = gap :: second :: rest) (hgap : gap.tokens = [])
    (hi : Names (second :: rest) interfaces)
    (hf : List.Forall₂ (Field.Describes maxNesting) entry.fields fields) :
    Reads (keyword ++ name ++ references " implements " " & " entry.interfaces ++
      block (entry.fields.map Field.render)) name (build interfaces fields) := by
  obtain ⟨raw, chunks, hclosed, hraw, hentries, rfl⟩ :=
    block_written (hf.imp fun _ _ h => h.written)
  have hfirst : Closed " implements " [.name "implements"] := fun _ _ => rfl
  have hnext : Closed " & " [.punct .ampersand] := fun _ _ => rfl
  have hdelimited := delimited_block (entry.fields.map Field.render)
  have hlist := closed_references (wellNamed_of_gap hgap hi) hfirst hnext ⟨_, _, rfl, rfl⟩ hclosed
    hdelimited
  have hbodies : Bodies word (significant (listing (.name "implements") .ampersand interfaces ++ raw))
      (build interfaces (chunks.map (·.2))) := by
    rw [significant_append, significant_listing (by simp), hraw]
    exact hb chunks hentries
  rw [ht, String.append_assoc]
  exact reads_leading hl hk hn hgap hi hlist
    (delimited_references " & " _ ⟨_, _, rfl, rfl⟩ hdelimited) hbodies

/-- The definition of an entry is read as what the entry describes without its gaps. -/
theorem TypeEntry.reads_passed {body : TypeBody}
    (h : entry.passed.DescribesBody maxNesting body) (hn : isName name) :
    ∃ kind, entry.kind = some kind ∧ Reads (entry.body name kind) name body := by
  have hsame : ∀ kind, entry.kind = some kind → entry.body name kind = entry.passed.body name kind →
      ∃ kind, entry.kind = some kind ∧ Reads (entry.body name kind) name body := by
    intro kind hkind heq
    obtain ⟨found, word, raw, hfound, hclosed, hbodies⟩ := h.written hn
    obtain rfl : kind = found := Option.some.inj (hkind.symm.trans hfound)
    exact ⟨kind, hkind, _, heq ▸ hclosed, fun description => defines_type description hbodies⟩
  cases h with
  | scalar hk => exact hsame .scalar hk rfl
  | enum hk hv => exact hsame .enum hk rfl
  | inputObject hk hf => exact hsame .inputObject hk rfl
  | @union members hk hm =>
    obtain heq | ⟨gap, second, rest, ht, hgap, heq⟩ := noticed_cases entry.members
    · exact hsame .union hk (by simp only [TypeEntry.body, TypeEntry.passed, heq])
    · refine ⟨.union, hk, union_passed hn ht hgap ?_⟩
      rwa [← heq]
  | @object interfaces fields hk hi hf =>
    obtain heq | ⟨gap, second, rest, ht, hgap, heq⟩ := noticed_cases entry.interfaces
    · exact hsame .object hk (by simp only [TypeEntry.body, TypeEntry.passed, heq])
    · have hword : Closed "type " [.name "type"] := fun _ _ => rfl
      refine ⟨.object, hk, fielded_passed hn .object hword .object
        (fun _ hentries => .object interfaces hentries) ht hgap ?_ hf⟩
      rwa [← heq]
  | @interface interfaces fields hk hi hf =>
    obtain heq | ⟨gap, second, rest, ht, hgap, heq⟩ := noticed_cases entry.interfaces
    · exact hsame .interface hk (by simp only [TypeEntry.body, TypeEntry.passed, heq])
    · have hword : Closed "interface " [.name "interface"] := fun _ _ => rfl
      refine ⟨.interface, hk, fielded_passed hn .interface hword .interface
        (fun _ hentries => .interface interfaces hentries) ht hgap ?_ hf⟩
      rwa [← heq]

theorem TypeEntry.passed_written {type : TypeDefinition}
    (h : entry.passed.Describes maxNesting type) (hb : isBuiltIn type.name = false) :
    ∃ raw, Closed entry.render raw ∧ Defines (raw, .type type) := by
  obtain ⟨description, name, directives, body⟩ := type
  obtain rfl : directives = [] := h.directives
  obtain rfl : description = spoken entry.description := h.description
  have hname : entry.name = some name := h.name
  have hb : isBuiltIn name = false := hb
  obtain ⟨kind, hkind, raw, hclosed, hdefines⟩ := TypeEntry.reads_passed h.body h.isName
  refine ⟨_, ?_, hdefines (spoken entry.description)⟩
  have hrender : entry.render =
      "\n" ++ descriptionLine "" entry.description ++ entry.body name kind := by
    simp only [TypeEntry.render, hname, hb, hkind, Bool.false_eq_true, if_false]
  rw [hrender]
  exact (closed_newline.append (closed_descriptionLine closed_empty entry.description)).append hclosed

end Entries

/-! ## 4. Answers -/

/-- A schema without gaps in front of other references. -/
def SchemaEntry.passed (schema : SchemaEntry) : SchemaEntry :=
  { schema with types := schema.types.map (Option.map TypeEntry.passed) }

theorem SchemaEntry.ownTypes_passed (schema : SchemaEntry) :
    schema.passed.ownTypes = schema.ownTypes.map TypeEntry.passed := by
  have hfilter : ∀ entries : List TypeEntry,
      (entries.map TypeEntry.passed).filter (fun entry => !entry.name.any isBuiltIn) =
        (entries.filter fun entry => !entry.name.any isBuiltIn).map TypeEntry.passed :=
    fun _ => List.filter_map
  have hentries : schema.passed.types.filterMap id =
      (schema.types.filterMap id).map TypeEntry.passed := by
    simp [SchemaEntry.passed, List.filterMap_map, List.map_filterMap]
  rw [SchemaEntry.ownTypes, hentries, hfilter]
  rfl

theorem ofPayload_of_passed {payload : Payload} {schema : SchemaEntry} {types : List TypeDefinition}
    (hp : payload.schema = some schema) (h : schema.passed.Describes maxNesting types) :
    TypeSystem.ofPayload payload =
      .ok ⟨BuiltIn.types ++ types, BuiltIn.directives, schema.rootTypes, []⟩ := by
  have hentries := h.entries
  rw [SchemaEntry.ownTypes_passed, List.forall₂_map_left_iff] at hentries
  obtain ⟨chunks, hclosed, hdefines, hmap⟩ := entries_written_of
    (fun _ _ h => h.name) (fun _ _ h hb => TypeEntry.passed_written h hb) hentries
  have hall : Closed schema.render ((schema.rootsChunk :: chunks).flatMap (·.1)) :=
    (SchemaEntry.closed_rootBlock h.rooted h.isName).append hclosed
  have hparse := parse_of_closed (by simp) hall
    (List.forall_mem_cons.mpr ⟨schema.defines_rootsChunk, hdefines⟩)
  have hdefinitions : (schema.rootsChunk :: chunks).map (·.2) =
      definitions schema.rootTypes types := by
    rw [List.map_cons, hmap]
    rfl
  have hbuild := build_definitions (rootTypes_nodup schema) h.unique h.own h.members
  rw [ofPayload_of_document hp hparse, hdefinitions, hbuild]
  rfl

end MockGraph.Introspection
