import MockGraph.Proofs.Introspection.Gaps
import MockGraph.Proofs.Introspection.Passed

/-!
# `Proofs/Introspection/Malformed`: malformed references are refused

The printer writes nothing for a reference that ends in nothing, and leaves it to the parser to
notice the gap. `ofPayload_of_malformed` says which gaps the parser notices, for answers whose names
are names of the language and whose default values are literals.

A gap is noticed, and the answer refused, unless it stands in front of others in a list of interfaces
or members (`noticed`). There the reference is dropped, and the answer is read as if it had never
been in the list. The other exception are types that are named like the keyword of a definition
(`definitionWords`): after a gap at the end of a definition the keyword of the next one is read as a
name, and then such a name as a keyword. `accepts_malformed` shows that neither can be left out.

To see that an answer is refused, the proof assumes that the printed text is a document, and follows
the parser through it. At each entry either all references are sound and the next entry comes next,
or the parser is astray, and then all that it can still read is an operation or a fragment.
-/

set_option autoImplicit false

namespace MockGraph.Introspection

open Syntax

/-! ## 1. Definitions of types -/

section Definitions

variable {word : String} {tokens : List Token} {sound : Prop}

theorem attempts_typeSystemDefinition {description : Option String} (hw : word ∈ typeWords)
    (h : Attempts (Parser.typeDefinition description word) tokens Boundary Astray sound) :
    Attempts (Parser.typeSystemDefinition description word) tokens Boundary Astray sound := by
  obtain ⟨hschema, hdirective⟩ := ne_of_typeWords hw
  intro lexemes rest hl hrest
  unfold Parser.typeSystemDefinition
  rw [if_neg hschema, if_neg hdirective]
  refine (h lexemes rest hl hrest).bind fun type? left hleft => ?_
  cases type? with
  | none => exact yields_of_error rfl
  | some type => exact yields_pure hleft

/-- With a description or without one, a definition of a type is read to its end, or the parser is
astray after it. -/
theorem attempts_definition (description : Option String) (hw : word ∈ typeWords)
    (h : Attempts (Parser.typeDefinition description word) tokens Boundary Astray sound) :
    Attempts Parser.definition (descriptionTokens description ++ .name word :: tokens) Boundary Astray
      sound := by
  have hrest : Attempts (do Parser.typeSystemDefinition description (← Parser.name "a definition"))
      ([.name word] ++ tokens) Boundary Astray sound :=
    (takes_name word "a definition").before (attempts_typeSystemDefinition hw h)
      fun _ _ _ _ => trivial
  intro lexemes rest hl hrest'
  cases description with
  | none =>
    obtain ⟨⟨token, flag⟩, others, rfl, rfl, hothers⟩ := List.map_eq_cons_iff.mp hl
    show Yields (Parser.undescribed word) (others ++ rest) _
    rw [undescribed_of_typeWords hw]
    exact attempts_typeSystemDefinition hw h others rest hothers hrest'
  | some text =>
    obtain ⟨⟨token, flag⟩, others, rfl, rfl, hothers⟩ := List.map_eq_cons_iff.mp hl
    exact yields_definition_text (hrest others rest hothers hrest')

end Definitions

/-! ## 2. Astray -/

def Executable (definition : Definition) : Prop :=
  (∃ operation, definition = .operation operation) ∨ ∃ fragment, definition = .fragment fragment

theorem isExecutable_of_mem {document : Document} {definition : Definition}
    (hd : definition ∈ document) (h : Executable definition) : document.isExecutable = true := by
  have hne : ∀ {α : Type} {found : List α} {a : α}, a ∈ found → (!found.isEmpty) = true := by
    intro α found a ha
    simp [List.ne_nil_of_mem ha]
  unfold Document.isExecutable
  rw [Bool.or_eq_true]
  rcases h with ⟨operation, rfl⟩ | ⟨fragment, rfl⟩
  · exact .inl (hne (List.mem_filterMap.mpr ⟨_, hd, rfl⟩))
  · exact .inr (hne (List.mem_filterMap.mpr ⟨_, hd, rfl⟩))

theorem typeDefinition_of_notMem {word : String} (h : word ∉ typeWords)
    (description : Option String) : Parser.typeDefinition description word = pure none := by
  simp only [typeWords, List.mem_cons, List.not_mem_nil, or_false, not_or] at h
  obtain ⟨hscalar, htype, hinterface, hunion, henum, hinput⟩ := h
  unfold Parser.typeDefinition
  split <;> first | contradiction | rfl

/-- A name that begins no definition of a type system can begin an operation or a fragment. -/
theorem AtName.yields_definition {lexemes : List Lexeme} (h : AtName lexemes) :
    Yields Parser.definition lexemes fun definition _ => Executable definition := by
  obtain ⟨word, flag, rest, rfl, hword, hat⟩ := h
  simp only [definitionWords, List.mem_cons, not_or] at hword
  obtain ⟨hschema, hextend, htype⟩ := hword
  show Yields (Parser.undescribed word) rest _
  unfold Parser.undescribed
  split
  · refine (yields_self Parser.fragment rest).bind fun fragment _ _ => ?_
    exact yields_pure (.inr ⟨fragment, rfl⟩)
  · split
    · refine (yields_self (Parser.operation _) rest).bind fun operation _ _ => ?_
      exact yields_pure (.inl ⟨operation, rfl⟩)
    · unfold Parser.typeSystemDefinition
      rw [if_neg hschema]
      split
      · -- The name of a directive has its mark in front.
        have hmark : Yields (Parser.punct .atSign) rest fun _ _ => False := by
          apply yields_punct
          rintro flag left rfl
          exact hat rfl
        have hdirective : Yields (Parser.directiveDefinition none) rest fun _ _ => False :=
          hmark.bind fun _ _ h => h.elim
        exact hdirective.bind fun _ _ h => h.elim
      · rw [typeDefinition_of_notMem htype]
        exact Yields.of_ok rfl (yields_of_error rfl)

theorem yields_definition_punct {lexemes : List Lexeme} {p : Punctuator}
    (hp : next lexemes = some (.punct p)) (hne : p ≠ .openBrace) :
    Yields Parser.definition lexemes fun _ _ => False := by
  obtain ⟨flag, rest, rfl⟩ := cons_of_next hp
  have hbrace : Parser.atPunct .openBrace (⟨.punct p, flag⟩ :: rest) =
      .ok (false, ⟨.punct p, flag⟩ :: rest) := by
    apply takes_not_atPunct .openBrace [] _ rfl
    simpa [notPunct, next] using hne
  have hplain : Parser.description? (⟨.punct p, flag⟩ :: rest) =
      .ok (none, ⟨.punct p, flag⟩ :: rest) := rfl
  have hname : Yields (Parser.name "a definition") (⟨.punct p, flag⟩ :: rest)
      fun _ _ => False := by
    apply yields_name
    intro name flag' left h
    cases h
  unfold Parser.definition
  refine Yields.of_ok hbrace ?_
  refine Yields.of_ok hplain ?_
  exact hname.bind fun _ _ h => h.elim

/-- Where the parser is astray, only what is no definition of a type system goes on. -/
theorem Astray.yields_definition {lexemes : List Lexeme} (h : Astray lexemes) :
    Yields Parser.definition lexemes fun definition _ => Executable definition := by
  rcases h with hname | ⟨p, hp, hnot⟩
  · exact hname.yields_definition
  · have hne : p ≠ .openBrace := by
      rintro rfl
      simp at hnot
    exact (yields_definition_punct hp hne).mono fun _ _ h => h.elim

theorem Astray.executable {lexemes : List Lexeme} {document : Document} (h : Astray lexemes)
    (hp : Parses lexemes document) : ∃ definition ∈ document, Executable definition := by
  have hne : lexemes ≠ [] := by
    rintro rfl
    rcases h with ⟨word, flag, rest, h, -⟩ | ⟨p, h, -⟩ <;> cases h
  obtain ⟨definition, rest, document', rfl, hdefinition, -⟩ := hp.first hne
  exact ⟨definition, List.mem_cons_self, h.yields_definition _ _ hdefinition⟩

/-! ## 3. Pieces of a document -/

/-- What the printed text of an entry is made of: a string, or a definition without a description. -/
inductive Piece : List Token × Prop → Prop where
  | text (text : String) : Piece ([.string text], True)
  | type {entry : TypeEntry} {name : String} {kind : Kind} {word : String} {raw : List Token}
      (h : entry.Read name kind word raw) (hn : name ∉ definitionWords) :
      Piece (.name word :: .name name :: raw, ∀ type? ∈ entry.noticed kind, HasType type?)

section Pieces

variable {pieces : List (List Token × Prop)}

theorem boundary_pieces (h : ∀ piece ∈ pieces, Piece piece) {lexemes : List Lexeme}
    (hl : lexemes.map (·.token) = pieces.flatMap fun piece => significant piece.1) :
    Boundary lexemes := by
  induction pieces generalizing lexemes with
  | nil => exact .inl (List.map_eq_nil_iff.mp hl)
  | cons piece pieces ih =>
    obtain ⟨hpiece, hpieces⟩ := List.forall_mem_cons.mp h
    rw [List.flatMap_cons] at hl
    cases hpiece with
    | text text =>
      obtain ⟨⟨token, flag⟩, others, rfl, rfl, -⟩ := List.map_eq_cons_iff.mp hl
      exact .inr (.inl ⟨text, rfl⟩)
    | @type entry name kind word raw hread hn =>
      rw [significant_cons (by simp), significant_cons (by simp)] at hl
      obtain ⟨⟨token, flag⟩, others, rfl, rfl, hothers⟩ := List.map_eq_cons_iff.mp hl
      obtain ⟨⟨token, flag'⟩, more, rfl, rfl, hmore⟩ := List.map_eq_cons_iff.mp hothers
      obtain ⟨body, rest, rfl, hbody, hrest⟩ := List.map_eq_append_iff.mp hmore
      have hafter := (ih hpieces hrest).outside.1 .atSign
      exact .inr (.inr ⟨word, flag, _, rfl, hread.keyword, name, flag', body ++ rest, rfl, hn,
        hread.plain.next_ne hbody hafter⟩)

/-- If pieces are read as a document, they are sound, or the document is executable. -/
theorem parses_pieces (h : ∀ piece ∈ pieces, Piece piece) (description : Option String)
    {lexemes : List Lexeme} {document : Document}
    (hl : lexemes.map (·.token) =
      descriptionTokens description ++ pieces.flatMap fun piece => significant piece.1)
    (hp : Parses lexemes document) :
    (∀ piece ∈ pieces, piece.2) ∨ ∃ definition ∈ document, Executable definition := by
  induction pieces generalizing description lexemes document with
  | nil => exact .inl (by simp)
  | cons piece pieces ih =>
    obtain ⟨hpiece, hpieces⟩ := List.forall_mem_cons.mp h
    rw [List.flatMap_cons] at hl
    cases hpiece with
    | text text =>
      cases description with
      | none =>
        -- The string is the description of what comes next.
        exact (ih hpieces (some text) hl hp).imp (fun h => by simpa using h) id
      | some other =>
        obtain ⟨⟨token, flag⟩, others, rfl, rfl, hothers⟩ := List.map_eq_cons_iff.mp hl
        cases hp with
        | cons hfirst _ =>
          obtain ⟨word, hword⟩ := yields_definition_string other flag others _ _ hfirst
          have hnext := @next_of_map others [] _ _ hothers
          rw [List.append_nil, hword] at hnext
          cases hnext
    | @type entry name kind word raw hread hn =>
      rw [significant_cons (by simp), significant_cons (by simp), ← List.append_assoc] at hl
      obtain ⟨first, rest, rfl, hfirst, hrest⟩ := List.map_eq_append_iff.mp hl
      have hne : first ++ rest ≠ [] := by
        rintro hnil
        rw [(List.append_eq_nil_iff.mp hnil).1] at hfirst
        simp at hfirst
      obtain ⟨definition, left, document', rfl, hdefinition, hr⟩ := hp.first hne
      have hread := attempts_definition description hread.keyword (hread.attempts description)
      rcases hread first rest hfirst (boundary_pieces hpieces hrest) _ _ hdefinition with
        ⟨hsound, rfl⟩ | hastray
      · refine (ih hpieces none hrest hr).imp (fun h => List.forall_mem_cons.mpr ⟨hsound, h⟩) ?_
        rintro ⟨other, hother, hexecutable⟩
        exact ⟨other, List.mem_cons_of_mem _ hother, hexecutable⟩
      · obtain ⟨other, hother, hexecutable⟩ := hastray.executable hr
        exact .inr ⟨other, List.mem_cons_of_mem _ hother, hexecutable⟩

end Pieces

/-! ## 4. Entries -/

/-- All references that are printed and noticed for an entry end in names. -/
def TypeEntry.Sound (entry : TypeEntry) : Prop :=
  ∀ name kind, entry.Prints name kind → ∀ type? ∈ entry.noticed kind, HasType type?

theorem pieces_description (description : Option String) :
    ∃ pieces : List (List Token × Prop), pieces.flatMap (·.1) = descriptionTokens description ∧
      ∀ piece ∈ pieces, Piece piece := by
  cases description with
  | none => exact ⟨[], rfl, by simp⟩
  | some text => exact ⟨[([.string text], True)], rfl, by simpa using .text text⟩

theorem TypeEntry.Prints.isIgnored {entry : TypeEntry} {name : String} {kind : Kind}
    (h : entry.Prints name kind) : entry.isIgnored = false := by
  simp [TypeEntry.isIgnored, h.hasName, h.own, h.hasKind, h.isNamed]

theorem TypeEntry.exists_prints {entry : TypeEntry} (h : entry.isIgnored = false) :
    ∃ name kind, entry.Prints name kind := by
  unfold TypeEntry.isIgnored at h
  obtain ⟨hname, hkind⟩ := Bool.or_eq_false_iff.mp h
  cases hn : entry.name with
  | none => simp [hn] at hname
  | some name =>
    cases hk : entry.kind with
    | none => simp [hk] at hkind
    | some kind => exact ⟨name, kind, hn, by simpa [hn] using hname, hk, by simpa [hk] using hkind⟩

theorem TypeEntry.Prints.render_eq {entry : TypeEntry} {name : String} {kind : Kind}
    (h : entry.Prints name kind) :
    entry.render = "\n" ++ descriptionLine "" entry.description ++ entry.body name kind := by
  simp only [TypeEntry.render, h.hasName, h.own, h.hasKind, Bool.false_eq_true, if_false]

/-- The text of an entry, scanned to its pieces. -/
theorem TypeEntry.WellNamed.pieces {entry : TypeEntry} (h : entry.WellNamed)
    (hn : ∀ name kind, entry.Prints name kind → name ∉ definitionWords) :
    ∃ pieces : List (List Token × Prop), Closed entry.render (pieces.flatMap (·.1)) ∧
      (∀ piece ∈ pieces, Piece piece) ∧ ((∀ piece ∈ pieces, piece.2) → entry.Sound) := by
  cases hi : entry.isIgnored with
  | true =>
    have hsound : entry.Sound := by
      intro name kind hp
      rw [hp.isIgnored] at hi
      cases hi
    by_cases hb : entry.name.all isBuiltIn = true
    · refine ⟨[], ?_, by simp, fun _ => hsound⟩
      rw [TypeEntry.render_of_isBuiltIn hb]
      exact closed_empty
    · obtain ⟨pieces, htokens, hpieces⟩ := pieces_description (spoken entry.stray?)
      refine ⟨pieces, ?_, hpieces, fun _ => hsound⟩
      rw [TypeEntry.render_of_isIgnored hi (by simpa using hb), htokens]
      exact closed_newline.append (closed_descriptionLine closed_empty _)
  | false =>
    obtain ⟨name, kind, hp⟩ := TypeEntry.exists_prints hi
    obtain ⟨word, raw, hread⟩ := h.read hp
    obtain ⟨pieces, htokens, hpieces⟩ := pieces_description (spoken entry.description)
    refine ⟨pieces ++ [(.name word :: .name name :: raw, ∀ type? ∈ entry.noticed kind, HasType type?)],
      ?_, ?_, ?_⟩
    · rw [hp.render_eq, List.flatMap_append, htokens, List.flatMap_singleton]
      exact (closed_newline.append (closed_descriptionLine closed_empty _)).append hread.closed
    · rw [List.forall_mem_append, List.forall_mem_singleton]
      exact ⟨hpieces, .type hread (hn name kind hp)⟩
    · intro hall name' kind' hp'
      obtain rfl : kind' = kind := Option.some.inj (hp'.hasKind.symm.trans hp.hasKind)
      exact hall _ (List.mem_append_right _ (List.mem_singleton_self _))

theorem entries_pieces {entries : List TypeEntry} (h : ∀ entry ∈ entries, entry.WellNamed)
    (hn : ∀ entry ∈ entries, ∀ name kind, entry.Prints name kind → name ∉ definitionWords) :
    ∃ pieces : List (List Token × Prop),
      Closed (String.join (entries.map TypeEntry.render)) (pieces.flatMap (·.1)) ∧
      (∀ piece ∈ pieces, Piece piece) ∧
      ((∀ piece ∈ pieces, piece.2) → ∀ entry ∈ entries, entry.Sound) := by
  induction entries with
  | nil => exact ⟨[], closed_empty, by simp, by simp⟩
  | cons entry entries ih =>
    obtain ⟨hentry, hentries⟩ := List.forall_mem_cons.mp h
    obtain ⟨hname, hnames⟩ := List.forall_mem_cons.mp hn
    obtain ⟨first, hfirst, hpiece, hsound⟩ := hentry.pieces hname
    obtain ⟨rest, hrest, hpieces, hsounds⟩ := ih hentries hnames
    refine ⟨first ++ rest, ?_, List.forall_mem_append.mpr ⟨hpiece, hpieces⟩, fun hall => ?_⟩
    · rw [List.map_cons, String.join_cons, List.flatMap_append]
      exact hfirst.append hrest
    · obtain ⟨hall, halls⟩ := List.forall_mem_append.mp hall
      exact List.forall_mem_cons.mpr ⟨hsound hall, hsounds halls⟩

/-! ## 5. Answers -/

section Answers

variable {payload : Payload} {schema : SchemaEntry}

/-- If the text of a schema is a document, its references are sound, or the document is executable. -/
theorem SchemaEntry.WellNamed.sound_of_parse (h : schema.WellNamed)
    (hn : ∀ entry, some entry ∈ schema.types → ∀ name kind, entry.Prints name kind →
      name ∉ definitionWords)
    {document : Document} (hd : Document.parse schema.render = .ok document) :
    (∀ entry, some entry ∈ schema.types → entry.Sound) ∨
      ∃ definition ∈ document, Executable definition := by
  have hmem : ∀ entry, entry ∈ schema.types.filterMap id ↔ some entry ∈ schema.types := by
    intro entry
    simp
  obtain ⟨pieces, hclosed, hpieces, hsound⟩ := entries_pieces
    (fun entry he => h.types entry ((hmem entry).mp he))
    (fun entry he => hn entry ((hmem entry).mp he))
  have htokens : ∀ flag, (Lexeme.ofTokens flag (pieces.flatMap (·.1))).map (·.token) =
      pieces.flatMap fun piece => significant piece.1 := by
    intro flag
    rw [map_token_ofTokens, significant_flatMap]
  have hread : ∀ {flag document}, Parses (Lexeme.ofTokens flag (pieces.flatMap (·.1))) document →
      (∀ entry, some entry ∈ schema.types → entry.Sound) ∨
        ∃ definition ∈ document, Executable definition := by
    intro flag document hp
    refine (parses_pieces hpieces none (htokens flag) hp).imp (fun hall entry he => ?_) id
    exact hsound hall entry ((hmem entry).mpr he)
  cases hroots : schema.rootTypes with
  | nil =>
    have hrender : schema.render =
        String.join ((schema.types.filterMap id).map TypeEntry.render) := by
      simp [SchemaEntry.render, SchemaEntry.rootBlock, roots_eq_rootTypes, hroots]
    rw [hrender, hclosed.parse] at hd
    exact hread (parses_of_ofLexemes hd)
  | cons root roots =>
    -- The root types come first and are read as they are.
    have hne : schema.rootTypes ≠ [] := by simp [hroots]
    have hall : Closed schema.render (schema.rootsChunk.1 ++ pieces.flatMap (·.1)) :=
      (SchemaEntry.closed_rootBlock hne h.roots).append hclosed
    obtain ⟨flag, hsplit⟩ := ofTokens_append false schema.rootsChunk.1 (pieces.flatMap (·.1))
    rw [hall.parse, hsplit] at hd
    have htake := schema.defines_rootsChunk.takes false (Lexeme.ofTokens flag (pieces.flatMap (·.1)))
      (boundary_pieces hpieces (htokens flag)).outside
    obtain ⟨document', rfl, hp⟩ := Parses.of_ok htake
      (by simp [SchemaEntry.rootsChunk, Lexeme.ofTokens]) (parses_of_ofLexemes hd)
    refine (hread hp).imp id ?_
    rintro ⟨definition, hdefinition, hexecutable⟩
    exact ⟨definition, List.mem_cons_of_mem _ hdefinition, hexecutable⟩

theorem build_of_isExecutable {document : Document} (h : document.isExecutable = true) :
    ∃ errors, TypeSystem.build document = .error (.executableDefinition :: errors) := by
  unfold TypeSystem.build TypeSystem.buildErrors
  rw [h]
  exact ⟨_, rfl⟩

/-- An answer in which a reference ends in nothing is refused, if the gap is noticed. -/
theorem refused_of_malformed {entry : TypeEntry} {name : String} {kind : Kind}
    {type? : Option TypeReference} (hp : payload.schema = some schema) (h : schema.WellNamed)
    (hn : ∀ other, some other ∈ schema.types → ∀ name kind, other.Prints name kind →
      name ∉ definitionWords)
    (he : some entry ∈ schema.types) (hk : entry.Prints name kind) (ht : type? ∈ entry.noticed kind)
    (hm : type?.bind TypeReference.endName? = none) :
    ∃ errors, TypeSystem.ofPayload payload = .error errors := by
  cases hd : Document.parse schema.render with
  | error error => exact ⟨_, ofPayload_of_syntaxError hp hd⟩
  | ok document =>
    rcases h.sound_of_parse hn hd with hsound | ⟨definition, hdefinition, hexecutable⟩
    · have hsome := hsound entry he name kind hk type? ht
      unfold HasType at hsome
      rw [hm] at hsome
      cases hsome
    · obtain ⟨errors, hbuild⟩ := build_of_isExecutable (isExecutable_of_mem hdefinition hexecutable)
      rw [ofPayload_of_document hp hd, hbuild]
      exact ⟨_, rfl⟩

/-- A noticed reference that ends in nothing makes an answer refused. Other gaps are passed over: an
answer that describes a schema without them is read as this schema. -/
theorem ofPayload_of_malformed (hp : payload.schema = some schema) :
    (schema.WellNamed →
      (∀ other, some other ∈ schema.types → ∀ name kind, other.Prints name kind →
        name ∉ definitionWords) →
      ∀ entry name kind type?, some entry ∈ schema.types → entry.Prints name kind →
        type? ∈ entry.noticed kind → type?.bind TypeReference.endName? = none →
        ∃ errors, TypeSystem.ofPayload payload = .error errors) ∧
    ∀ types, schema.passed.Describes maxNesting types →
      TypeSystem.ofPayload payload =
        .ok ⟨BuiltIn.types ++ types, BuiltIn.directives, schema.rootTypes, []⟩ := by
  constructor
  · intro h hn entry name kind type? he hk ht hm
    exact refused_of_malformed hp h hn he hk ht hm
  · intro types h
    exact ofPayload_of_passed hp h

end Answers

namespace Sample

/-- A reference without a name. -/
def nameless : TypeReference := .mk (some .object) none none

def anyEntry (members : List TypeReference) : TypeEntry :=
  ⟨some .union, some "Any", none, [], [], [], [], members⟩

def ownedEntry (name : Name) : TypeEntry :=
  ⟨some .object, some name, none,
    [⟨some "query", none, some (reference "Query"), false, none⟩], [], [], [], []⟩

/-- A union and the type after it. -/
def united (query : Option Name) (members : List TypeReference) (name : Name) : SchemaEntry :=
  ⟨query, none, none, [some queryEntry, some (anyEntry members), some (ownedEntry name)]⟩

theorem wellNamed_reference {name : Name} (h : isName name) : (reference name).WellNamed :=
  (denotes h).wellNamed

theorem wellNamed_nameless : nameless.WellNamed := by
  intro name hname
  cases hname

section United

variable {query : Option Name} {members : List TypeReference} {name : Name}

theorem wellNamed_object {field type : Name} (hn : isName name) (hf : isName field)
    (ht : isName type) : TypeEntry.WellNamed ⟨some .object, some name, none,
      [⟨some field, none, some (reference type), false, none⟩], [], [], [], []⟩ := by
  refine ⟨?_, ?_, by simp, by simp, by simp, by simp⟩
  · intro other kind hp
    cases hp.hasName
    exact hn
  · rw [List.forall_mem_singleton]
    refine ⟨⟨field, rfl, hf⟩, ?_⟩
    intro found hfound
    cases hfound
    exact wellNamed_reference ht

theorem wellNamed_united (hq : ∀ root ∈ query, isName root) (hm : ∀ type ∈ members, type.WellNamed)
    (hn : isName name) : (united query members name).WellNamed := by
  have hquery : isName "Query" ∧ isName "id" ∧ isName "ID" ∧ isName "query" := by decide
  constructor
  · intro root hroot
    cases query with
    | none => cases hroot
    | some other =>
      cases List.mem_singleton.mp hroot
      exact hq other rfl
  · intro entry he
    simp only [united, List.mem_cons, List.not_mem_nil, or_false, Option.some.injEq] at he
    rcases he with rfl | rfl | rfl
    · exact wellNamed_object hquery.1 hquery.2.1 hquery.2.2.1
    · refine ⟨?_, by simp [anyEntry], by simp [anyEntry], by simp [anyEntry], by simp [anyEntry], hm⟩
      intro other kind hp
      cases hp.hasName
      decide
    · exact wellNamed_object hn hquery.2.2.2 hquery.1

theorem names_united (hn : name ∉ definitionWords) :
    ∀ other, some other ∈ (united query members name).types → ∀ word kind, other.Prints word kind →
      word ∉ definitionWords := by
  intro other he word kind hp
  simp only [united, List.mem_cons, List.not_mem_nil, or_false, Option.some.injEq] at he
  rcases he with rfl | rfl | rfl
  · cases hp.hasName
    decide
  · cases hp.hasName
    decide
  · cases hp.hasName
    exact hn

theorem prints_any : (anyEntry members).Prints "Any" .union := ⟨rfl, by decide, rfl, rfl⟩

end United

/-- The types of a schema with a union of one member. -/
def unitedTypes : List TypeDefinition := [
  ⟨none, "Query", [], .object [] [⟨none, "id", [], .named "ID", []⟩]⟩,
  ⟨none, "Any", [], .union ["Item"]⟩,
  ⟨none, "Item", [], .object [] [⟨none, "query", [], .named "Query", []⟩]⟩]

theorem describes_united :
    (united (some "Query") [nameless, reference "Item"] "Item").passed.Describes maxNesting
      unitedTypes := by
  have hnames : isName "Query" ∧ isName "ID" ∧ isName "Item" ∧ isName "Any" := by decide
  refine ⟨by decide, by decide, .cons ?query (.cons ?any (.cons ?item .nil)), by decide⟩
  case query =>
    refine ⟨rfl, hnames.1, rfl, rfl, .object rfl .nil (.cons ?_ .nil), by decide⟩
    exact describes_field (by decide) (denotes hnames.2.1) (by decide)
  case any =>
    exact ⟨rfl, hnames.2.2.2, rfl, rfl, .union rfl (.cons (denotes hnames.2.2.1) .nil), by decide⟩
  case item =>
    refine ⟨rfl, hnames.2.2.1, rfl, rfl, .object rfl .nil (.cons ?_ .nil), by decide⟩
    exact describes_field (by decide) (denotes hnames.1) (by decide)

/-- A gap at the end of a list of members, and one at its beginning. -/
theorem ofPayload_of_malformed_united :
    nameless.endName? = none ∧ (∃ errors, TypeSystem.ofPayload
      ⟨false, some (united (some "Query") [reference "Item", nameless] "Item")⟩ = .error errors) ∧
    TypeSystem.ofPayload ⟨false, some (united (some "Query") [nameless, reference "Item"] "Item")⟩ =
      .ok ⟨BuiltIn.types ++ unitedTypes, BuiltIn.directives, [(.query, "Query")], []⟩ := by
  have hitem : isName "Query" ∧ isName "Item" := by decide
  have hmembers : ∀ type ∈ [reference "Item", nameless], type.WellNamed := by
    rw [List.forall_mem_cons, List.forall_mem_singleton]
    exact ⟨wellNamed_reference hitem.2, wellNamed_nameless⟩
  have hwell := @wellNamed_united (some "Query") _ "Item" (by simpa using hitem.1) hmembers hitem.2
  have hany : some (anyEntry [reference "Item", nameless]) ∈
      (united (some "Query") [reference "Item", nameless] "Item").types := by simp [united]
  have hgap : some nameless ∈ (anyEntry [reference "Item", nameless]).noticed .union :=
    List.mem_of_mem_tail List.mem_cons_self
  refine ⟨rfl, ?_, (ofPayload_of_malformed rfl).2 _ describes_united⟩
  exact (ofPayload_of_malformed rfl).1 hwell (names_united (by decide)) _ _ _ _ hany prints_any hgap
    rfl

/-- The members of the unions of a schema. -/
def unionMembers (system : TypeSystem) : List (List Name) :=
  system.types.filterMap fun type =>
    match type.body with
    | .union members => some members
    | _ => none

/-- A gap in front of other members is passed over, and a gap at the end takes the keyword of a type
with the name of a keyword. -/
theorem accepts_malformed :
    ((united (some "Query") [nameless, reference "Item"] "Item").WellNamed ∧
      (anyEntry [nameless, reference "Item"]).Prints "Any" .union ∧ nameless.endName? = none ∧
      (TypeSystem.ofPayload ⟨false, some (united (some "Query") [nameless, reference "Item"]
        "Item")⟩).toOption.map unionMembers = some [["Item"]]) ∧
    (united none [nameless] "schema").WellNamed ∧ (anyEntry [nameless]).Prints "Any" .union ∧
      (TypeSystem.ofPayload ⟨false, some (united none [nameless] "schema")⟩).toOption.map
        unionMembers = some [["type"]] := by
  have hname : isName "Query" ∧ isName "Item" ∧ isName "schema" := by decide
  refine ⟨⟨?_, prints_any, rfl, by decide +kernel⟩, ?_, prints_any, by decide +kernel⟩
  · apply wellNamed_united (by simpa using hname.1) _ hname.2.1
    rw [List.forall_mem_cons, List.forall_mem_singleton]
    exact ⟨wellNamed_nameless, wellNamed_reference hname.2.1⟩
  · apply wellNamed_united (by simp) _ hname.2.2
    rw [List.forall_mem_singleton]
    exact wellNamed_nameless

end Sample

end MockGraph.Introspection
