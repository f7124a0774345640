import MockGraph.Proofs.Introspection.RoundTrip
import MockGraph.Proofs.Syntax.Yields

/-!
# `Proofs/Introspection/Ignored`: entries that stand for no type

An answer may list entries that are no named types of a known kind: nulls, nameless or kindless ones,
wrappers, unknown kinds, and the types that every schema has. They have no definition, so a schema
should be the same with and without them.

Two things can still be written for such an entry. One is an empty line. It counts only where the
text before it is inside a block string, which names and default values can bring about. The other
is a description, for an entry with a name and a kind. This one is a stray: it belongs to whatever is
written next. `ofPayload_ignored` says that an entry without a stray is ignored, and that a stray is
never without consequence where the other entries describe a schema.
-/

set_option autoImplicit false

namespace MockGraph.Introspection

open Syntax

/-! ## 1. Ignored entries -/

/-- The kinds of types that have a name of their own. -/
def Kind.isNamed : Kind → Bool
  | .scalar | .object | .interface | .union | .enum | .inputObject => true
  | .list | .nonNull | .other _ => false

namespace TypeEntry

/-- An entry that is not a named type of a known kind, or one that is built in. -/
def isIgnored (entry : TypeEntry) : Bool :=
  entry.name.all isBuiltIn || entry.kind.all fun kind => !kind.isNamed

/-- What is written of an ignored entry beside an empty line. -/
def stray? (entry : TypeEntry) : Option String :=
  if entry.name.all isBuiltIn || entry.kind.isNone then none else spoken entry.description

theorem render_of_isBuiltIn {entry : TypeEntry} (h : entry.name.all isBuiltIn = true) :
    entry.render = "" := by
  cases hname : entry.name with
  | none => simp only [render, hname]
  | some name =>
    have hb : isBuiltIn name = true := by simpa [hname] using h
    simp only [render, hname, hb, if_true]

theorem descriptionLine_spoken (indent : String) (description : Option String) :
    descriptionLine indent (spoken description) = descriptionLine indent description := by
  cases description with
  | none => rfl
  | some text =>
    by_cases h : text = ""
    · subst h
      rfl
    · have hspoken : spoken (some text) = some text := by simp [spoken, Option.filter, h]
      rw [hspoken]

/-- An ignored entry that writes something writes an empty line and its stray. -/
theorem render_of_isIgnored {entry : TypeEntry} (h : entry.isIgnored = true)
    (hb : entry.name.all isBuiltIn = false) :
    entry.render = "\n" ++ descriptionLine "" entry.stray? := by
  obtain ⟨name, hname, hown⟩ : ∃ name, entry.name = some name ∧ isBuiltIn name = false := by
    cases hname : entry.name with
    | none => simp [hname] at hb
    | some name => exact ⟨name, rfl, by simpa [hname] using hb⟩
  cases hkind : entry.kind with
  | none =>
    have hstray : entry.stray? = none := by simp [stray?, hkind]
    rw [hstray]
    simp only [render, hname, hown, hkind, Bool.false_eq_true, if_false]
    rfl
  | some kind =>
    have hstray : entry.stray? = spoken entry.description := by simp [stray?, hname, hown, hkind]
    have hbody : entry.body name kind = "" := by
      have hkind : kind.isNamed = false := by
        simpa [isIgnored, hname, hown, hkind] using h
      cases kind <;> first | rfl | cases hkind
    rw [hstray, descriptionLine_spoken]
    simp only [render, hname, hown, hkind, hbody, Bool.false_eq_true, if_false,
      String.append_empty]

end TypeEntry

/-! ## 2. Line ends -/

/-- A text is nothing or ends in a line end. -/
def EndsLine (text : String) : Prop := text = "" ∨ ∃ before, text = before ++ "\n"

/-- A text is nothing or begins with a line end. -/
def StartsLine (text : String) : Prop := text = "" ∨ ∃ after, text = "\n" ++ after

theorem EndsLine.append {text more : String} (h : EndsLine text) (h' : EndsLine more) :
    EndsLine (text ++ more) := by
  rcases h' with rfl | ⟨before, rfl⟩
  · rwa [String.append_empty]
  · exact .inr ⟨text ++ before, (String.append_assoc ..).symm⟩

theorem StartsLine.append {text more : String} (h : StartsLine text) (h' : StartsLine more) :
    StartsLine (text ++ more) := by
  rcases h with rfl | ⟨after, rfl⟩
  · rwa [String.empty_append]
  · exact .inr ⟨after ++ more, String.append_assoc ..⟩

theorem endsLine_descriptionLine (indent : String) (description : Option String) :
    EndsLine (descriptionLine indent description) := by
  unfold descriptionLine
  split
  · exact .inl rfl
  · exact .inl rfl
  · exact .inr ⟨_, rfl⟩

theorem endsLine_block (text : String) (lines : List String) : EndsLine (text ++ block lines) := by
  cases lines with
  | nil => exact .inr ⟨text, rfl⟩
  | cons line lines =>
    have hclose : "\x7d\n" = "\x7d" ++ "\n" := by decide
    refine .inr ⟨text ++ (" \x7b\n" ++ (String.join (line :: lines) ++ "\x7d")), ?_⟩
    change text ++ (" \x7b\n" ++ String.join (line :: lines) ++ "\x7d\n") = _
    rw [hclose]
    simp only [String.append_assoc]

theorem TypeEntry.endsLine_body (entry : TypeEntry) (name : String) (kind : Kind) :
    EndsLine (entry.body name kind) := by
  cases kind with
  | scalar | union => exact .inr ⟨_, rfl⟩
  | object | interface | enum | inputObject => exact endsLine_block _ _
  | list | nonNull | other => exact .inl rfl

theorem TypeEntry.startsLine_render (entry : TypeEntry) : StartsLine entry.render := by
  unfold TypeEntry.render
  split
  · exact .inl rfl
  · split
    · exact .inl rfl
    · split
      · exact .inr ⟨"", rfl⟩
      · exact .inr ⟨_, String.append_assoc ..⟩

theorem TypeEntry.endsLine_render (entry : TypeEntry) : EndsLine entry.render := by
  have hline : EndsLine "\n" := .inr ⟨"", rfl⟩
  unfold TypeEntry.render
  split
  · exact .inl rfl
  · split
    · exact .inl rfl
    · split
      · exact hline
      · exact (hline.append (endsLine_descriptionLine _ _)).append (entry.endsLine_body _ _)

/-- The definitions of some entries. -/
def renderAll (entries : List (Option TypeEntry)) : String :=
  String.join ((entries.filterMap id).map TypeEntry.render)

theorem renderAll_append (entries more : List (Option TypeEntry)) :
    renderAll (entries ++ more) = renderAll entries ++ renderAll more := by
  rw [renderAll, List.filterMap_append, List.map_append, String.join_append]
  rfl

theorem startsLine_renderAll (entries : List (Option TypeEntry)) :
    StartsLine (renderAll entries) := by
  unfold renderAll
  induction entries.filterMap id with
  | nil => exact .inl rfl
  | cons entry entries ih =>
    rw [List.map_cons, String.join_cons]
    exact entry.startsLine_render.append ih

theorem endsLine_renderAll (entries : List (Option TypeEntry)) : EndsLine (renderAll entries) := by
  unfold renderAll
  induction entries.filterMap id with
  | nil => exact .inl rfl
  | cons entry entries ih =>
    rw [List.map_cons, String.join_cons]
    exact entry.endsLine_render.append ih

theorem SchemaEntry.endsLine_rootBlock (schema : SchemaEntry) : EndsLine schema.rootBlock := by
  unfold SchemaEntry.rootBlock
  split
  · exact .inl rfl
  · exact endsLine_block _ _

/-! ## 3. An extra line end -/

/-- A text ends inside a block string. -/
def OpensBlock (text : String) : Prop :=
  ∃ tokens chars pending,
    text.toList.foldlM Lexer.step ⟨[], .between⟩ = .ok ⟨tokens, .block chars pending⟩

/-- Where the lexer stands after a line end. -/
inductive AfterLine : Lexer → Prop where
  | between (tokens : List Token) : AfterLine ⟨tokens, .between⟩
  | text (tokens : List Token) : AfterLine ⟨tokens, .text ['\n']⟩
  | block (tokens : List Token) (chars : List Char) (pending : Lexer.Pending) :
      AfterLine ⟨tokens, .block chars pending⟩

theorem afterLine_of_step {lexer after : Lexer} (h : lexer.step '\n' = .ok after) :
    AfterLine after := by
  obtain ⟨tokens, mode⟩ := lexer
  cases mode with
  | between | comment | name | twoQuotes =>
    cases h
    exact .between _
  | numeral phase chars =>
    have hphase : phase.next? '\n' = none := by cases phase <;> rfl
    simp only [Lexer.step, hphase, Lexer.afterNumeral] at h
    cases hn : Lexer.numeralToken phase chars with
    | error error =>
      rw [hn] at h
      cases h
    | ok token =>
      rw [hn] at h
      cases h
      exact .between _
  | dots | text | escape => cases h
  | quote =>
    cases h
    exact .text _
  | unicode chars code =>
    cases code with
    | opening | digit => cases h
    | trailing lead backslash => cases backslash <;> cases h
    | braced value? => cases value? <;> cases h
  | block chars pending =>
    cases pending <;> cases h <;> exact .block _ _ _

theorem EndsLine.afterLine {text : String} (h : EndsLine text) {lexer : Lexer}
    (hl : text.toList.foldlM Lexer.step ⟨[], .between⟩ = .ok lexer) : AfterLine lexer := by
  rcases h with rfl | ⟨before, rfl⟩
  · cases hl
    exact .between []
  · rw [String.toList_append, List.foldlM_append] at hl
    cases hb : before.toList.foldlM Lexer.step ⟨[], .between⟩ with
    | error error =>
      rw [hb] at hl
      cases hl
    | ok found =>
      rw [hb] at hl
      have hstep : (found.step '\n' >>= pure) = .ok lexer := hl
      rw [bind_pure] at hstep
      exact afterLine_of_step hstep

theorem scan_append (text more : String) : Token.scan (text ++ more) =
    text.toList.foldlM Lexer.step ⟨[], .between⟩ >>= fun lexer =>
      more.toList.foldlM Lexer.step lexer >>= Lexer.finish := by
  unfold Token.scan
  rw [String.toList_append, List.foldlM_append, bind_assoc]

/-- Between tokens a line end changes nothing, whatever comes next. -/
theorem scan_newline_of_between {text more : String} {tokens : List Token}
    (h : text.toList.foldlM Lexer.step ⟨[], .between⟩ = .ok ⟨tokens, .between⟩) :
    Token.scan (text ++ ("\n" ++ more)) = Token.scan (text ++ more) := by
  have hline := closed_newline tokens more.toList
  rw [scan_append, scan_append, h, String.toList_append]
  change (("\n".toList ++ more.toList).foldlM Lexer.step ⟨tokens, .between⟩ >>= _) = _
  rw [hline]
  rfl

/-- Between lines a line end changes nothing, unless a block string goes on there. -/
theorem scan_newline {text more : String} (ht : EndsLine text) (hm : StartsLine more)
    (hb : ¬ OpensBlock text) :
    Token.scan (text ++ ("\n" ++ more)) = Token.scan (text ++ more) := by
  cases htext : text.toList.foldlM Lexer.step ⟨[], .between⟩ with
  | error error =>
    rw [scan_append, scan_append, htext]
    rfl
  | ok lexer =>
    cases ht.afterLine htext with
    | between tokens => exact scan_newline_of_between htext
    | text tokens =>
      -- A quote mark stands before the last line end, and no string goes on in a second line.
      have hfails : ∀ text : String,
          ("\n" ++ text).toList.foldlM Lexer.step ⟨tokens, .text ['\n']⟩ = .error .unfinished := by
        intro text
        rw [String.toList_append]
        rfl
      rw [scan_append, scan_append, htext]
      rcases hm with rfl | ⟨after, rfl⟩
      · rfl
      · change (("\n" ++ ("\n" ++ after)).toList.foldlM Lexer.step _ >>= _) =
          ("\n" ++ after).toList.foldlM Lexer.step _ >>= _
        rw [hfails, hfails]
    | block tokens chars pending => exact absurd ⟨tokens, chars, pending, htext⟩ hb

/-! ## 4. Strays -/

/-- A string that no keyword follows is no part of a document. -/
theorem parse_error_of_string {source : String} {chunks : List (List Token × Definition)}
    {text : String} {rest : List Token}
    (h : Closed source (chunks.flatMap (·.1) ++ .string text :: rest))
    (hd : ∀ chunk ∈ chunks, Defines chunk)
    (hrest : ∀ word, next (Lexeme.ofTokens false rest) ≠ some (.name word)) :
    ∃ error, Document.parse source = .error error := by
  cases hdocument : Document.parse source with
  | error error => exact ⟨error, rfl⟩
  | ok document =>
    rw [h.parse] at hdocument
    obtain ⟨flag, document', hp⟩ :=
      (parses_of_ofLexemes hdocument).after hd (by simp) (by simp [outside])
    cases hp with
    | cons hfirst _ =>
      obtain ⟨word, hword⟩ := yields_definition_string text flag _ _ _ hfirst
      exact absurd hword (hrest word)

/-! ## 5. An entry among others -/

/-- The entries that are not built in. -/
def ownEntries (entries : List (Option TypeEntry)) : List TypeEntry :=
  (entries.filterMap id).filter fun entry => !entry.name.any isBuiltIn

theorem renderAll_eq (entries : List (Option TypeEntry)) :
    renderAll entries = String.join ((ownEntries entries).map TypeEntry.render) := by
  unfold renderAll ownEntries
  induction entries.filterMap id with
  | nil => rfl
  | cons entry entries ih =>
    rw [List.map_cons, String.join_cons, ih]
    by_cases hb : entry.name.any isBuiltIn = true
    · have hall : entry.name.all isBuiltIn = true := by
        cases hname : entry.name with
        | none => rfl
        | some name => simpa [hname] using hb
      rw [List.filter_cons_of_neg (by simp [hb]), TypeEntry.render_of_isBuiltIn hall,
        String.empty_append]
    · rw [List.filter_cons_of_pos (by simpa using hb), List.map_cons, String.join_cons]

theorem forall₂_split {α β : Type} {R : α → β → Prop} {as bs : List α} {cs : List β}
    (h : List.Forall₂ R (as ++ bs) cs) :
    ∃ cs₁ cs₂, cs = cs₁ ++ cs₂ ∧ List.Forall₂ R as cs₁ ∧ List.Forall₂ R bs cs₂ := by
  have htake := List.forall₂_take as.length h
  have hdrop := List.forall₂_drop as.length h
  rw [List.take_left] at htake
  rw [List.drop_left] at hdrop
  exact ⟨_, _, (List.take_append_drop as.length cs).symm, htake, hdrop⟩

theorem SchemaEntry.Describes.ownEntries_append {schema : SchemaEntry}
    {before after : List (Option TypeEntry)} {types : List TypeDefinition}
    (h : SchemaEntry.Describes maxNesting { schema with types := before ++ after } types) :
    List.Forall₂ (TypeEntry.Describes maxNesting) (ownEntries before ++ ownEntries after) types := by
  have hall := h.entries
  unfold SchemaEntry.ownTypes at hall
  rwa [List.filterMap_append, List.filter_append] at hall

/-- The text before an entry, if the other entries describe a schema. -/
theorem SchemaEntry.Describes.lead {schema : SchemaEntry} {types typesBefore : List TypeDefinition}
    {before : List (Option TypeEntry)} (h : schema.Describes maxNesting types)
    (hb : List.Forall₂ (TypeEntry.Describes maxNesting) (ownEntries before) typesBefore) :
    ∃ chunks : List (List Token × Definition),
      Closed (schema.rootBlock ++ renderAll before) (chunks.flatMap (·.1)) ∧
      (∀ chunk ∈ chunks, Defines chunk) ∧
      chunks.map (·.2) = definitions schema.rootTypes typesBefore := by
  obtain ⟨chunks, hclosed, hdefines, hmap⟩ := entries_written hb
  refine ⟨schema.rootsChunk :: chunks, (SchemaEntry.closed_rootBlock h.rooted h.isName).append hclosed,
    List.forall_mem_cons.mpr ⟨schema.defines_rootsChunk, hdefines⟩, ?_⟩
  rw [List.map_cons, hmap]
  rfl

theorem not_opensBlock_of_closed {text : String} {tokens : List Token} (h : Closed text tokens) :
    ¬ OpensBlock text := by
  rintro ⟨found, chars, pending, hblock⟩
  have hall := h [] []
  rw [List.append_nil, List.append_nil, hblock] at hall
  cases hall

section Schema

variable {payload : Payload} {schema : SchemaEntry} {before after : List (Option TypeEntry)}
  {entry : TypeEntry} {types : List TypeDefinition}

theorem spoken_of_stray {text : String} (h : entry.stray? = some text) :
    spoken (some text) = some text := by
  unfold TypeEntry.stray? at h
  split at h
  · cases h
  · have hidem : spoken (spoken entry.description) = spoken entry.description := by
      simp [spoken, Option.filter_filter]
    rwa [h] at hidem

theorem not_isBuiltIn_of_stray {text : String} (h : entry.stray? = some text) :
    entry.name.all isBuiltIn = false := by
  unfold TypeEntry.stray? at h
  split at h
  · cases h
  · next hnot =>
    simp only [Bool.or_eq_true, not_or] at hnot
    simpa using hnot.1

theorem render_insert (hs : schema.types = before ++ some entry :: after) :
    schema.render = schema.rootBlock ++ renderAll before ++ (entry.render ++ renderAll after) := by
  have hrender : schema.render = schema.rootBlock ++ renderAll schema.types := rfl
  have hentry : renderAll (some entry :: after) = entry.render ++ renderAll after := by
    simp only [renderAll, List.filterMap_cons, id_eq, List.map_cons, String.join_cons]
  rw [hrender, hs, renderAll_append, hentry, String.append_assoc]

/-- Entries that describe types, scanned. -/
theorem renderAll_written {typesAfter : List TypeDefinition}
    (h : List.Forall₂ (TypeEntry.Describes maxNesting) (ownEntries after) typesAfter) :
    renderAll after = "" ∧ typesAfter = [] ∨
      ∃ (type : TypeDefinition) (types : List TypeDefinition) (word : String) (raw : List Token)
        (chunks : List (List Token × Definition)), typesAfter = type :: types ∧
        Closed (renderAll after) (descriptionTokens type.description ++ .name word ::
          .name type.name :: raw ++ chunks.flatMap (·.1)) ∧
        Bodies word (significant raw) type.body ∧ type.directives = [] ∧
        (∀ chunk ∈ chunks, Defines chunk) ∧ chunks.map (·.2) = types.map .type := by
  have hown : ∀ other ∈ ownEntries after, other.name.any isBuiltIn = false := by
    intro other ho
    simpa using (List.mem_filter.mp ho).2
  rw [renderAll_eq]
  cases hall : ownEntries after with
  | nil =>
    rw [hall] at h
    cases h
    exact .inl ⟨rfl, rfl⟩
  | cons first others =>
    rw [hall] at h hown
    cases h with
    | @cons _ type _ types hfirst hothers =>
      have hbuilt : isBuiltIn type.name = false := by
        have hany := hown first List.mem_cons_self
        rw [hfirst.name] at hany
        exact hany
      have hkeep : (others.filter fun other => !other.name.any isBuiltIn) = others := by
        refine List.filter_eq_self.mpr fun other ho => ?_
        simp [hown other (List.mem_cons_of_mem _ ho)]
      obtain ⟨word, raw, hclosed, hbodies⟩ := hfirst.scanned hbuilt
      obtain ⟨chunks, hrest, hdefines, hmap⟩ := entries_written (hkeep.symm ▸ hothers)
      refine .inr ⟨type, types, word, raw, chunks, rfl, ?_, hbodies, hfirst.directives, hdefines,
        hmap⟩
      rw [List.map_cons, String.join_cons]
      exact hclosed.append hrest

/-- A string in front of a definition without a description becomes its description. -/
theorem ofPayload_described {text word : String} {raw : List Token}
    {chunks more : List (List Token × Definition)} {typesBefore others : List TypeDefinition}
    {type : TypeDefinition} (hp : payload.schema = some schema)
    (hc : Closed schema.render (chunks.flatMap (·.1) ++ [.string text] ++
      (descriptionTokens none ++ .name word :: .name type.name :: raw ++ more.flatMap (·.1))))
    (hd : ∀ chunk ∈ chunks, Defines chunk) (hd' : ∀ chunk ∈ more, Defines chunk)
    (hm : chunks.map (·.2) = definitions schema.rootTypes typesBefore)
    (hm' : more.map (·.2) = others.map .type) (hb : Bodies word (significant raw) type.body)
    (hn : type.directives = [])
    (h : SchemaEntry.Describes maxNesting { schema with types := before ++ after }
      (typesBefore ++ type :: others)) :
    TypeSystem.ofPayload payload =
      .ok ⟨BuiltIn.types ++ (typesBefore ++ { type with description := some text } :: others),
        BuiltIn.directives, schema.rootTypes, []⟩ := by
  let described : TypeDefinition := { type with description := some text }
  let chunk : List Token × Definition :=
    (descriptionTokens (some text) ++ .name word :: .name type.name :: raw, .type described)
  have hchunk : Defines chunk := by
    have hdefines := @defines_type word type.name raw type.body (some text) hb
    have hsame : (⟨some text, type.name, [], type.body⟩ : TypeDefinition) = described := by
      rw [← hn]
    rwa [hsame] at hdefines
  have hall : ∀ c ∈ chunks ++ chunk :: more, Defines c :=
    List.forall_mem_append.mpr ⟨hd, List.forall_mem_cons.mpr ⟨hchunk, hd'⟩⟩
  have hclosed : Closed schema.render ((chunks ++ chunk :: more).flatMap (·.1)) := by
    simpa [chunk, descriptionTokens] using hc
  have hparse := parse_of_closed (by simp) hclosed hall
  have hdocument : (chunks ++ chunk :: more).map (·.2) =
      definitions schema.rootTypes (typesBefore ++ described :: others) := by
    rw [List.map_append, List.map_cons, hm, hm']
    simp [definitions, chunk]
  rw [hdocument] at hparse
  -- Neither the names nor the members change with a description.
  have hnames : ((typesBefore ++ described :: others).map (·.name)).Nodup := by
    have hunique := h.unique
    simpa [described] using hunique
  have hown : ∀ t ∈ typesBefore ++ described :: others, BuiltIn.isType t.name = false := by
    have hown := h.own
    simp only [List.forall_mem_append, List.forall_mem_cons] at hown ⊢
    exact hown
  have hmembers : ∀ t ∈ typesBefore ++ described :: others, ∀ names ∈ t.nameLists, names.Nodup := by
    have hmembers := h.members
    simp only [List.forall_mem_append, List.forall_mem_cons] at hmembers ⊢
    exact hmembers
  have hbuild := build_definitions (rootTypes_nodup schema) hnames hown hmembers
  rw [ofPayload_of_document hp hparse, hbuild]
  rfl

/-- With a stray among entries that describe a schema, the answer is refused or read as another
schema. -/
theorem ofPayload_ne_of_stray {text : String} (hp : payload.schema = some schema)
    (hs : schema.types = before ++ some entry :: after) (hi : entry.isIgnored = true)
    (hd : entry.stray? = some text)
    (h : SchemaEntry.Describes maxNesting { schema with types := before ++ after } types) :
    TypeSystem.ofPayload payload ≠
      .ok ⟨BuiltIn.types ++ types, BuiltIn.directives, schema.rootTypes, []⟩ := by
  obtain ⟨typesBefore, typesAfter, rfl, hbefore, hafter⟩ := forall₂_split h.ownEntries_append
  obtain ⟨chunks, hlead, hdefines, hmap⟩ := h.lead hbefore
  have hstray : Closed (schema.rootBlock ++ renderAll before ++ entry.render)
      (chunks.flatMap (·.1) ++ [.string text]) := by
    rw [TypeEntry.render_of_isIgnored hi (not_isBuiltIn_of_stray hd), hd]
    have hline := closed_descriptionLine closed_empty (some text)
    rw [spoken_of_stray hd] at hline
    exact hlead.append (closed_newline.append hline)
  have hrender : schema.render =
      schema.rootBlock ++ renderAll before ++ entry.render ++ renderAll after := by
    simp only [render_insert hs, String.append_assoc]
  have hrefused : ∀ {rest : List Token}, Closed (renderAll after) rest →
      (∀ word, next (Lexeme.ofTokens false rest) ≠ some (.name word)) →
      TypeSystem.ofPayload payload ≠ .ok ⟨BuiltIn.types ++ (typesBefore ++ typesAfter),
        BuiltIn.directives, schema.rootTypes, []⟩ := by
    intro rest hrest hnext hok
    have hall := hstray.append hrest
    rw [← hrender, List.append_assoc, List.singleton_append] at hall
    obtain ⟨error, herror⟩ := parse_error_of_string hall hdefines hnext
    rw [ofPayload_of_syntaxError hp herror] at hok
    cases hok
  rcases renderAll_written hafter with
    ⟨hnothing, rfl⟩ | ⟨type, types, word, raw, more, rfl, hmore, hbodies, hbare, hdefine, hmapMore⟩
  · exact hrefused (hnothing ▸ closed_empty) fun word hword => by cases hword
  · cases hdescription : type.description with
    | some other =>
      rw [hdescription] at hmore
      exact hrefused hmore fun word hword => by cases hword
    | none =>
      -- The stray is taken for the description of the next type.
      intro hok
      rw [hdescription] at hmore
      have hall := ofPayload_described hp (hrender ▸ hstray.append hmore) hdefines hdefine hmap
        hmapMore hbodies hbare h
      rw [hall] at hok
      have htypes := congrArg TypeSystem.types (Except.ok.inj hok)
      have htail := List.append_cancel_left (List.append_cancel_left htypes)
      have hsame := congrArg TypeDefinition.description (List.cons.inj htail).1
      rw [hdescription] at hsame
      cases hsame

theorem ofPayload_congr {payload' : Payload} {schema' : SchemaEntry}
    (hp : payload.schema = some schema) (hp' : payload'.schema = some schema')
    (h : Token.scan schema.render = Token.scan schema'.render) :
    TypeSystem.ofPayload payload = TypeSystem.ofPayload payload' := by
  have hparse : Document.parse schema.render = Document.parse schema'.render := by
    unfold Document.parse Lexeme.scan
    rw [h]
  cases hdocument : Document.parse schema.render with
  | error error =>
    rw [ofPayload_of_syntaxError hp hdocument, ofPayload_of_syntaxError hp' (hparse ▸ hdocument)]
  | ok document =>
    rw [ofPayload_of_document hp hdocument, ofPayload_of_document hp' (hparse ▸ hdocument)]

/-- The entry is ignored: no answer is read differently with it and without it, if it has no stray
and, where it writes an empty line, no block string goes on there. And where the other entries
describe a schema, having no stray is all that it takes. -/
theorem ofPayload_ignored {slot? : Option TypeEntry} (hp : payload.schema = some schema)
    (hs : schema.types = before ++ slot? :: after)
    (hi : ∀ entry ∈ slot?, entry.isIgnored = true) :
    let bare : Payload := ⟨payload.isResponse, some { schema with types := before ++ after }⟩
    (slot?.bind TypeEntry.stray? = none →
      (∀ entry ∈ slot?, entry.name.all isBuiltIn = true) ∨
        ¬ OpensBlock (schema.rootBlock ++ renderAll before) →
      TypeSystem.ofPayload payload = TypeSystem.ofPayload bare) ∧
    ∀ types, SchemaEntry.Describes maxNesting { schema with types := before ++ after } types →
      ((TypeSystem.ofPayload payload).toOption = (TypeSystem.ofPayload bare).toOption ↔
        slot?.bind TypeEntry.stray? = none) := by
  intro bare
  have hbare : (SchemaEntry.mk schema.query schema.mutation schema.subscription
      (before ++ after)).render = schema.rootBlock ++ renderAll before ++ renderAll after := by
    have hrender : (SchemaEntry.mk schema.query schema.mutation schema.subscription
        (before ++ after)).render = schema.rootBlock ++ renderAll (before ++ after) := rfl
    rw [hrender, renderAll_append, String.append_assoc]
  have hsilent : slot?.bind TypeEntry.stray? = none →
      (∀ entry ∈ slot?, entry.name.all isBuiltIn = true) ∨
        ¬ OpensBlock (schema.rootBlock ++ renderAll before) →
      TypeSystem.ofPayload payload = TypeSystem.ofPayload bare := by
    intro hstray hquiet
    refine ofPayload_congr hp rfl ?_
    rw [hbare]
    cases slot? with
    | none =>
      have hrender : schema.render = schema.rootBlock ++ renderAll schema.types := rfl
      rw [hrender, hs, renderAll_append, String.append_assoc]
      rfl
    | some entry =>
      rw [render_insert hs]
      by_cases hb : entry.name.all isBuiltIn = true
      · rw [TypeEntry.render_of_isBuiltIn hb, String.empty_append]
      · have hstray : entry.stray? = none := hstray
        have hopen := hquiet.resolve_left fun h => hb (h entry rfl)
        rw [TypeEntry.render_of_isIgnored (hi entry rfl) (by simpa using hb), hstray]
        have hends : EndsLine (schema.rootBlock ++ renderAll before) :=
          schema.endsLine_rootBlock.append (endsLine_renderAll before)
        exact scan_newline hends (startsLine_renderAll after) hopen
  refine ⟨hsilent, fun types h => ⟨?_, ?_⟩⟩
  · intro hsame
    by_contra hstray
    cases slot? with
    | none => exact hstray rfl
    | some entry =>
      obtain ⟨text, htext⟩ := Option.ne_none_iff_exists'.mp hstray
      have hread := @ofPayload_of_document bare _ _ rfl (parse_render h)
      rw [build_definitions (rootTypes_nodup _) h.unique h.own h.members] at hread
      rw [hread] at hsame
      refine ofPayload_ne_of_stray hp hs (hi entry rfl) htext h ?_
      cases hall : TypeSystem.ofPayload payload with
      | error error =>
        rw [hall] at hsame
        cases hsame
      | ok system =>
        rw [hall] at hsame
        exact congrArg Except.ok (Option.some.inj hsame)
  · intro hstray
    obtain ⟨typesBefore, typesAfter, rfl, hbefore, -⟩ := forall₂_split h.ownEntries_append
    obtain ⟨chunks, hlead, -⟩ := h.lead hbefore
    rw [hsilent hstray (.inr (not_opensBlock_of_closed hlead))]

end Schema

namespace Sample

/-- A list type with a name. -/
def wrapper (description : Option String) : TypeEntry :=
  ⟨some .list, some "Ids", description, [], [], [], [], []⟩

/-- A schema with an entry between the query type and the others. -/
def withEntry (entry : TypeEntry) : SchemaEntry :=
  { filtered (reference "Area") none with
    types := [some queryEntry, some entry, some areaEntry,
      some (filterEntry (reference "Area") none)] }

theorem closed_queryLead : Closed (rooted.rootBlock ++ renderAll [some queryEntry])
    [.name "schema", .punct .openBrace, .name "query", .punct .colon, .name "Query",
      .punct .closeBrace, .name "type", .name "Query", .punct .openBrace, .name "id",
      .punct .colon, .name "ID", .punct .closeBrace] := fun _ _ => rfl

/-- Without a description a wrapper changes nothing, and with one it does. -/
theorem ofPayload_ignored_wrapper :
    TypeSystem.ofPayload ⟨false, some (withEntry (wrapper (some "")))⟩ =
        TypeSystem.ofPayload ⟨false, some (filtered (reference "Area") none)⟩ ∧
      (TypeSystem.ofPayload ⟨false, some (withEntry (wrapper (some "All ids.")))⟩).toOption ≠
        (TypeSystem.ofPayload ⟨false, some (filtered (reference "Area") none)⟩).toOption := by
  have hignored : ∀ description, ∀ entry ∈ some (wrapper description), entry.isIgnored = true := by
    intro description entry he
    cases he
    rfl
  have harea : (reference "Area").Denotes (.named "Area") := denotes (by decide)
  have hdescribes := describes_filtered harea (Nat.zero_le maxNesting) .none
  constructor
  · exact (@ofPayload_ignored ⟨false, some (withEntry (wrapper (some "")))⟩ _ [_] [_, _] _ rfl rfl
      (hignored _)).1 rfl (.inr (not_opensBlock_of_closed closed_queryLead))
  · intro h
    have hstray := ((@ofPayload_ignored ⟨false, some (withEntry (wrapper (some "All ids.")))⟩ _ [_]
      [_, _] _ rfl rfl (hignored _)).2 _ hdescribes).mp h
    exact absurd hstray (by decide)

/-- An input object with nothing but three quote marks as a default value. -/
def quoting (name : Name) : TypeEntry :=
  ⟨some .inputObject, some name, none, [], [⟨"text", none, reference "ID", some "\"\"\""⟩], [], [], []⟩

/-- The texts that are default values in a schema. -/
def defaultTexts (system : TypeSystem) : List String :=
  system.types.flatMap fun type =>
    match type.body with
    | .inputObject fields => fields.filterMap fun field =>
      match field.default with
      | some (.string text) => some text
      | _ => none
    | _ => []

def queried (entries : List TypeEntry) : Payload :=
  ⟨false, some ⟨some "Query", none, none, (queryEntry :: entries).map some⟩⟩

def kindless : TypeEntry := ⟨none, some "Ids", none, [], [], [], [], []⟩

/-- A wrapper with a description can make an answer unreadable, and in an open block string the
empty line for an entry without a kind is a line of the string. -/
theorem not_ofPayload_ignored :
    ((wrapper (some "All ids.")).isIgnored = true ∧
      (TypeSystem.ofPayload (queried [wrapper (some "All ids.")])).toOption.isNone = true ∧
      (TypeSystem.ofPayload (queried [])).toOption.isSome = true) ∧
    kindless.isIgnored = true ∧
      (TypeSystem.ofPayload (queried [quoting "A", kindless, quoting "B"])).toOption.map
          defaultTexts = some ["\x7d\n\n\ninput B \x7b\n  text: ID = "] ∧
      (TypeSystem.ofPayload (queried [quoting "A", quoting "B"])).toOption.map
          defaultTexts = some ["\x7d\n\ninput B \x7b\n  text: ID = "] := by
  decide +kernel

end Sample

end MockGraph.Introspection
