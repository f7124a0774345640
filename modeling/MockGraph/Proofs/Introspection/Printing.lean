import MockGraph.Proofs.Introspection.Description
import MockGraph.Proofs.Syntax.Lexing

/-!
# `Proofs/Introspection/Printing`: the printed text of a description

What the printer writes for a part of an answer, tokenised and parsed. Every part has a lemma that
gives the tokens of its text, in pieces that can be put after each other, and a parser takes these
tokens. A member of a type is `Written` when both hold.

The last lemma is `SchemaEntry.Describes.written`: the text of a whole schema is scanned to the
definitions of what the schema describes.
-/

set_option autoImplicit false

namespace MockGraph.Introspection

open Syntax

/-! ## 1. Pieces, types and marks -/

theorem closed_newline : Closed "\n" [] := fun _ _ => rfl

theorem delimited_newline : Delimited "\n" := ⟨_, _, rfl, rfl⟩

theorem closed_indent : Closed "  " [] := fun _ _ => rfl

theorem closed_colon : Closed ": " [.punct .colon] := fun _ _ => rfl

theorem delimited_colon : Delimited ": " := ⟨_, _, rfl, rfl⟩

theorem closed_equals : Closed " = " [.punct .equals] := fun _ _ => rfl

theorem delimited_equals : Delimited " = " := ⟨_, _, rfl, rfl⟩

theorem closed_closeBrace : Closed "\x7d\n" [.punct .closeBrace] := fun _ _ => rfl

theorem tokens_nonNull {type : TypeRef} (h : type.isNonNull = false) :
    type.nonNull.tokens = type.tokens ++ [.punct .bang] := by
  cases type with
  | named name => rfl
  | list type => simp [TypeRef.nonNull, TypeRef.tokens]
  | nonNullNamed | nonNullList => cases h

namespace TypeReference

/-- The name that a reference ends in, behind its wrappers. -/
def endName? : TypeReference → Option String
  | .mk (some .list) _ (some inner) => inner.endName?
  | .mk (some .nonNull) _ (some inner) => inner.endName?
  | .mk _ name _ => name

/-- The tokens of a reference, whatever it ends in. -/
def tokens : TypeReference → List Token
  | .mk (some .list) _ (some inner) =>
    .punct .openBracket :: (inner.tokens ++ [.punct .closeBracket])
  | .mk (some .nonNull) _ (some inner) => inner.tokens ++ [.punct .bang]
  | .mk _ name _ => (name.map Token.name).toList

/-- If a reference ends in a name, it is a name of the language. -/
def WellNamed (reference : TypeReference) : Prop := ∀ name ∈ reference.endName?, isName name

theorem WellNamed.pending {reference : TypeReference} (h : reference.WellNamed) :
    Pending reference.render reference.tokens := by
  fun_induction tokens reference with
  | case1 name inner ih =>
    have hopen : Closed "[" [.punct .openBracket] := fun _ _ => rfl
    have hclose : Closed "]" [.punct .closeBracket] := fun _ _ => rfl
    have hall := (hopen.append_pending (ih h)).append_closed hclose ⟨_, _, rfl, rfl⟩
    exact hall.pending
  | case2 name inner ih =>
    have hbang : Closed "!" [.punct .bang] := fun _ _ => rfl
    exact ((ih h).append_closed hbang ⟨_, _, rfl, rfl⟩).pending
  | case3 kind name inner hl hn =>
    have hrender : (mk kind name inner).render = name.getD "" := render.eq_3 kind name inner hl hn
    have hname : (mk kind name inner).endName? = name := endName?.eq_3 kind name inner hl hn
    unfold WellNamed at h
    rw [hname] at h
    rw [hrender]
    cases name with
    | none => exact closed_empty.pending
    | some name => exact pending_name (h name rfl)

theorem Denotes.wellNamed {reference : TypeReference} {type : TypeRef}
    (h : reference.Denotes type) : reference.WellNamed := by
  induction h with
  | @named kind name inner hl hn h =>
    have hname : (TypeReference.mk kind (some name) inner).endName? = some name :=
      endName?.eq_3 kind (some name) inner (fun _ hk _ => absurd hk hl) fun _ hk _ => absurd hk hn
    intro other hother
    rw [hname] at hother
    cases hother
    exact h
  | list h ih => exact ih
  | nonNull h ht ih => exact ih

theorem Denotes.tokens_eq {reference : TypeReference} {type : TypeRef}
    (h : reference.Denotes type) : reference.tokens = type.tokens := by
  induction h with
  | @named kind name inner hl hn h =>
    exact tokens.eq_3 kind (some name) inner (fun _ hk _ => absurd hk hl) fun _ hk _ => absurd hk hn
  | list h ih => rw [tokens, ih, TypeRef.tokens]
  | nonNull h ht ih => rw [tokens, ih, tokens_nonNull ht]

theorem Denotes.pending {reference : TypeReference} {type : TypeRef}
    (h : reference.Denotes type) : Pending reference.render type.tokens := by
  rw [← h.tokens_eq]
  exact h.wellNamed.pending

end TypeReference

theorem descriptionLine_of_ne {text : String} (h : text ≠ "") (indent : String) :
    descriptionLine indent (some text) = indent ++ Text.quote text ++ "\n" := by
  unfold descriptionLine
  split <;> simp_all

theorem closed_descriptionLine {indent : String} (h : Closed indent [])
    (description : Option String) :
    Closed (descriptionLine indent description) (descriptionTokens (spoken description)) := by
  cases description with
  | none => exact closed_empty
  | some text =>
    by_cases ht : text = ""
    · subst ht
      exact closed_empty
    · have hspoken : spoken (some text) = some text := by simp [spoken, Option.filter, ht]
      rw [hspoken, descriptionLine_of_ne ht]
      exact (h.append (closed_quote ht)).append closed_newline

def deprecationTokens : Bool → Option String → List Token
  | false, _ => []
  | true, none => [.punct .atSign, .name "deprecated"]
  | true, some reason =>
    [.punct .atSign, .name "deprecated", .punct .openParen, .name "reason", .punct .colon,
      .string reason, .punct .closeParen]

theorem deprecation_false (reason : Option String) : deprecation false reason = "" := by
  cases reason <;> rfl

theorem closed_deprecation (deprecated : Bool) (reason : Option String) :
    Closed (deprecation deprecated reason ++ "\n") (deprecationTokens deprecated reason) := by
  cases deprecated with
  | false =>
    rw [deprecation_false, deprecationTokens]
    exact fun _ _ => rfl
  | true =>
    cases reason with
    | none => exact fun _ _ => rfl
    | some reason =>
      have hopen : Closed " @deprecated(reason: " [.punct .atSign, .name "deprecated",
        .punct .openParen, .name "reason", .punct .colon] := fun _ _ => rfl
      have hclose : Closed ")" [.punct .closeParen] := fun _ _ => rfl
      have hmark := (hopen.append_pending (pending_quote reason)).append_closed hclose
        ⟨_, _, rfl, rfl⟩
      exact hmark.append closed_newline

theorem delimited_deprecation (deprecated : Bool) (reason : Option String) :
    Delimited (deprecation deprecated reason ++ "\n") := by
  cases deprecated with
  | false =>
    rw [deprecation_false]
    exact ⟨_, _, rfl, rfl⟩
  | true =>
    cases reason with
    | none => exact ⟨_, _, rfl, rfl⟩
    | some reason =>
      have hopen : Delimited " @deprecated(reason: " := ⟨_, _, rfl, rfl⟩
      exact ((hopen.append _).append _).append _

theorem annotates_deprecation (deprecated : Bool) (reason : Option String) :
    Annotates (deprecationTokens deprecated reason) (deprecationMark deprecated reason) := by
  cases deprecated with
  | false => cases reason <;> exact annotates_nil
  | true =>
    cases reason with
    | none => exact @annotates_directive [] "deprecated" (by simp)
    | some reason =>
      refine @annotates_directive
        [([.name "reason", .punct .colon, .string reason], ⟨"reason", .string reason⟩)]
        "deprecated" fun chunk hc => ?_
      rw [List.mem_singleton.mp hc]
      exact ⟨_, .string reason, rfl⟩

/-! ## 2. No commas -/

@[simp] theorem significant_tokens (type : TypeRef) : significant type.tokens = type.tokens := by
  induction type with
  | named | nonNullNamed => rfl
  | list type ih | nonNullList type ih =>
    rw [TypeRef.tokens, significant_cons (by simp), significant_append, ih]
    rfl

@[simp] theorem TypeReference.significant_tokens (reference : TypeReference) :
    significant reference.tokens = reference.tokens := by
  fun_induction TypeReference.tokens reference with
  | case1 name inner ih =>
    rw [significant_cons (by simp), significant_append, ih]
    rfl
  | case2 name inner ih =>
    rw [significant_append, ih]
    rfl
  | case3 kind name inner hl hn => cases name <;> rfl

@[simp] theorem significant_descriptionTokens (description : Option String) :
    significant (descriptionTokens description) = descriptionTokens description := by
  cases description <;> rfl

@[simp] theorem significant_deprecationTokens (deprecated : Bool) (reason : Option String) :
    significant (deprecationTokens deprecated reason) = deprecationTokens deprecated reason := by
  cases deprecated <;> cases reason <;> rfl

theorem significant_listing {first : Token} (h : first ≠ .comma) (separator : Punctuator)
    (names : List Name) :
    significant (listing first separator names) = listing first separator names := by
  cases names with
  | nil => rfl
  | cons name rest =>
    rw [listing, significant_cons h, significant_cons (by simp), significant_flatMap]
    rfl

/-! ## 3. Members of types -/

/-- A text is scanned to tokens from which a parser takes a member of a type. -/
structure Scanned {α : Type} (text : String) (item : Parser α) (a : α) (raw : List Token) :
    Prop where
  closed : Closed text raw
  takes : Takes item (significant raw) apart a
  head : ∃ t ts, raw = t :: ts ∧ t ≠ .comma ∧ ∀ p, t ≠ .punct p

def Written {α : Type} (text : String) (item : Parser α) (a : α) : Prop :=
  ∃ raw, Scanned text item a raw

/-- The text of a member: its description, its name, and a rest that cannot belong to the name. -/
theorem closed_described {name : Name} {rest : String} {raw : List Token}
    (description : Option String) (hn : isName name) (h : Closed rest raw) (hd : Delimited rest) :
    Closed (descriptionLine "  " description ++ "  " ++ name ++ rest)
      (descriptionTokens (spoken description) ++ .name name :: raw) := by
  have hline := (closed_descriptionLine closed_indent description).append closed_indent
  have hall := (hline.append_pending (pending_name hn)).append_closed h hd
  rwa [List.append_nil, List.append_assoc] at hall

theorem written_described {α : Type} {item : Parser α} {a : α} {name : Name} {rest : String}
    {raw : List Token} (description : Option String) (hn : isName name) (h : Closed rest raw)
    (hd : Delimited rest)
    (ht : Takes item (descriptionTokens (spoken description) ++ .name name :: significant raw)
      apart a) :
    Written (descriptionLine "  " description ++ "  " ++ name ++ rest) item a := by
  refine ⟨descriptionTokens (spoken description) ++ .name name :: raw,
    closed_described description hn h hd, ?_, ?_⟩
  · simpa using ht
  · cases spoken description with
    | none => exact ⟨_, _, rfl, by simp, by simp⟩
    | some text => exact ⟨_, _, rfl, by simp, by simp⟩

theorem Field.Describes.written {field : Field} {defined : FieldDefinition}
    (h : field.Describes maxNesting defined) :
    Written field.render Parser.fieldDefinition defined := by
  obtain ⟨reference, htype, hdenotes⟩ := h.type
  obtain ⟨description, name, arguments, type, directives⟩ := defined
  obtain rfl : arguments = [] := h.arguments
  obtain rfl : description = spoken field.description := h.description
  obtain rfl : directives = deprecationMark field.deprecated field.reason := h.directives
  have hname : field.name = some name := h.name
  have hmark := closed_deprecation field.deprecated field.reason
  have hrest := closed_colon.append
    (hdenotes.pending.append_closed hmark (delimited_deprecation _ _))
  have htakes := takes_fieldDefinition (spoken field.description) name h.lists
    (annotates_deprecation field.deprecated field.reason)
  have hrender : field.render = descriptionLine "  " field.description ++ "  " ++ name ++
      (": " ++ (reference.render ++ (deprecation field.deprecated field.reason ++ "\n"))) := by
    simp only [Field.render, hname, htype, Option.getD_some, Option.map_some, String.append_assoc]
  rw [hrender]
  refine written_described field.description h.isName hrest (delimited_colon.append _) ?_
  simpa using htakes

theorem EnumValue.Describes.written {value : EnumValue} {defined : Syntax.EnumValue}
    (h : value.Describes defined) : Written value.render Parser.enumValue defined := by
  obtain ⟨description, name, directives⟩ := defined
  obtain rfl : description = spoken value.description := h.description
  obtain rfl : directives = deprecationMark value.deprecated value.reason := h.directives
  have hname : value.name = some name := h.name
  have htakes := takes_enumValue (spoken value.description) h.ordinary
    (annotates_deprecation value.deprecated value.reason)
  have hrender : value.render = descriptionLine "  " value.description ++ "  " ++ name ++
      (deprecation value.deprecated value.reason ++ "\n") := by
    simp only [EnumValue.render, hname, Option.getD_some, String.append_assoc]
  rw [hrender]
  refine written_described value.description h.isName (closed_deprecation _ _)
    (delimited_deprecation _ _) ?_
  simpa using htakes

/-- How a default value is written after the type of a field. -/
def defaultText : Option String → String
  | none => ""
  | some value => " = " ++ value

theorem InputField.render_eq (field : InputField) :
    field.render = descriptionLine "  " field.description ++ "  " ++ field.name ++
      (": " ++ (field.type.render ++ (defaultText field.default ++ "\n"))) := by
  cases hd : field.default <;>
    simp only [InputField.render, hd, defaultText, String.append_assoc, String.empty_append]

theorem DefaultText.closed {text : Option String} {value : Option Value}
    (h : DefaultText maxNesting text value) :
    ∃ raw, Closed (defaultText text ++ "\n") raw ∧ Delimited (defaultText text ++ "\n") ∧
      Defaults (significant raw) value := by
  cases h with
  | none =>
    exact ⟨[], closed_empty.append closed_newline, ⟨_, _, rfl, rfl⟩, .none⟩
  | @some text raw value hs hl =>
    refine ⟨[.punct .equals] ++ raw, ?_, (delimited_equals.append _).append _, ?_⟩
    · rw [defaultText, String.append_assoc]
      exact closed_equals.append (closed_line hs)
    · rw [List.singleton_append, significant_cons (by simp)]
      exact .some hl

theorem InputField.Describes.written {field : InputField} {defined : InputValue}
    (h : field.Describes maxNesting defined) :
    Written field.render Parser.inputValue defined := by
  obtain ⟨raw, hclosed, hdelimited, hdefaults⟩ := h.default.closed
  obtain ⟨description, name, type, default, directives⟩ := defined
  obtain rfl : directives = [] := h.directives
  obtain rfl : description = spoken field.description := h.description
  have hname : field.name = name := h.name
  have hrest := closed_colon.append (h.type.pending.append_closed hclosed hdelimited)
  have htakes := takes_inputValue (spoken field.description) name h.lists hdefaults
  rw [InputField.render_eq, hname]
  refine written_described field.description h.isName hrest (delimited_colon.append _) ?_
  simpa using htakes

/-! ## 4. Blocks and references -/

theorem delimited_block (lines : List String) : Delimited (block lines) := by
  cases lines with
  | nil => exact ⟨_, _, rfl, rfl⟩
  | cons line lines =>
    have hopen : Delimited " \x7b\n" := ⟨_, _, rfl, rfl⟩
    exact (hopen.append _).append _

theorem closed_block {β : Type} {lines : List String} {chunks : List (List Token × β)}
    (hempty : lines = [] ↔ chunks = []) (h : Closed (String.join lines) (chunks.flatMap (·.1))) :
    Closed (block lines) (inside .openBrace .closeBrace chunks) := by
  cases lines with
  | nil =>
    rw [hempty.mp rfl]
    exact closed_newline
  | cons line lines =>
    have hopen : Closed " \x7b\n" [.punct .openBrace] := fun _ _ => rfl
    have hsome : chunks.isEmpty = false := by
      rw [List.isEmpty_eq_false_iff]
      exact fun hnone => List.cons_ne_nil _ _ (hempty.mpr hnone)
    rw [inside, hsome]
    exact (hopen.append h).append closed_closeBrace

theorem significant_inside {β : Type} (opening closing : Punctuator)
    (chunks : List (List Token × β)) :
    significant (inside opening closing chunks) =
      inside opening closing (chunks.map fun chunk => (significant chunk.1, chunk.2)) := by
  cases chunks with
  | nil => rfl
  | cons chunk chunks => simp [inside, List.flatMap_map]

section Blocks

variable {α β : Type} {render : α → String} {item : Parser β} {entries : List α}
  {members : List β}

theorem join_written
    (h : List.Forall₂ (fun entry member => Written (render entry) item member) entries members) :
    ∃ chunks : List (List Token × β),
      Closed (String.join (entries.map render)) (chunks.flatMap (·.1)) ∧
      Entries item (chunks.map fun chunk => (significant chunk.1, chunk.2)) ∧
      chunks.map (·.2) = members := by
  induction h with
  | nil => exact ⟨[], closed_empty, ⟨by simp, by simp⟩, rfl⟩
  | @cons entry member entries members hw hrest ih =>
    obtain ⟨raw, hclosed, htakes, t, ts, hraw, hcomma, hpunct⟩ := hw
    obtain ⟨chunks, hjoin, hmembers, rfl⟩ := ih
    refine ⟨(raw, member) :: chunks, ?_, ⟨?_, ?_⟩, rfl⟩
    · rw [List.map_cons, String.join_cons, List.flatMap_cons]
      exact hclosed.append hjoin
    · rw [List.map_cons, List.forall_mem_cons]
      exact ⟨htakes, hmembers.takes⟩
    · rw [List.map_cons, List.forall_mem_cons]
      refine ⟨⟨t, significant ts, ?_, hpunct⟩, hmembers.head⟩
      rw [hraw, significant_cons hcomma]

/-- The members of a type in braces, or nothing if there are none. -/
theorem block_written
    (h : List.Forall₂ (fun entry member => Written (render entry) item member) entries members) :
    ∃ raw chunks, Closed (block (entries.map render)) raw ∧
      significant raw = inside .openBrace .closeBrace chunks ∧ Entries item chunks ∧
      chunks.map (·.2) = members := by
  obtain ⟨chunks, hjoin, hmembers, rfl⟩ := join_written h
  have hempty : entries.map render = [] ↔ chunks = [] := by
    have hlength := h.length_eq
    rw [List.length_map] at hlength
    rw [List.map_eq_nil_iff, ← List.length_eq_zero_iff, hlength, List.length_eq_zero_iff]
  refine ⟨_, _, closed_block hempty hjoin, significant_inside _ _ chunks,
    hmembers, ?_⟩
  rw [List.map_map]
  rfl

end Blocks

/-- The tokens of references, with one token before the first and another before each other one. -/
def referenceTokens (first : Token) (separator : Punctuator) : List TypeReference → List Token
  | [] => []
  | type :: rest => first :: (type.tokens ++ rest.flatMap fun t => .punct separator :: t.tokens)

theorem Names.wellNamed {types : List TypeReference} {names : List Name} (h : Names types names) :
    ∀ type ∈ types, type.WellNamed := by
  induction h with
  | nil => simp
  | cons h _ ih => exact List.forall_mem_cons.mpr ⟨h.wellNamed, ih⟩

theorem Names.tokens_eq {types : List TypeReference} {names : List Name} (h : Names types names)
    (first : Token) (separator : Punctuator) :
    referenceTokens first separator types = listing first separator names := by
  have hrest : ∀ {types : List TypeReference} {names : List Name}, Names types names →
      types.flatMap (fun t => .punct separator :: t.tokens) =
        names.flatMap fun name => [.punct separator, .name name] := by
    intro types names h
    induction h with
    | nil => rfl
    | cons h _ ih => rw [List.flatMap_cons, List.flatMap_cons, ih, h.tokens_eq, TypeRef.tokens]
  cases h with
  | nil => rfl
  | cons h hs => rw [referenceTokens, listing, hrest hs, h.tokens_eq, TypeRef.tokens,
      List.singleton_append]

/-- References with a piece before the first and another one before each other one. -/
theorem closed_references {first next more : String} {token : Token} {separator : Punctuator}
    {raw : List Token} {types : List TypeReference} (h : ∀ type ∈ types, type.WellNamed)
    (hf : Closed first [token]) (hn : Closed next [.punct separator]) (hd : Delimited next)
    (hm : Closed more raw) (hmd : Delimited more) :
    Closed (references first next types ++ more) (referenceTokens token separator types ++ raw) := by
  cases types with
  | nil =>
    -- Neither piece is written, so the tokens are those of what follows.
    rw [references, String.empty_append]
    exact hm
  | cons type types =>
    -- Each reference is pending, and what follows it begins with a blank or is the rest.
    have htail : ∀ types : List TypeReference, (∀ type ∈ types, type.WellNamed) →
        Closed (String.join (types.map fun type => next ++ type.render) ++ more)
          (types.flatMap (fun t => .punct separator :: t.tokens) ++ raw) ∧
        Delimited (String.join (types.map fun type => next ++ type.render) ++ more) := by
      intro types h
      induction types with
      | nil =>
        rw [List.map_nil, String.join_nil, String.empty_append]
        exact ⟨hm, hmd⟩
      | cons other types ih =>
        obtain ⟨hother, hrest⟩ := List.forall_mem_cons.mp h
        rw [List.map_cons, String.join_cons, List.flatMap_cons, List.append_assoc,
          String.append_assoc]
        exact ⟨(hn.append_pending hother.pending).append_closed (ih hrest).1 (ih hrest).2,
          (hd.append _).append _⟩
    obtain ⟨htype, htypes⟩ := List.forall_mem_cons.mp h
    obtain ⟨hclosed, hdelimited⟩ := htail types htypes
    rw [references, String.append_assoc, referenceTokens, List.cons_append, List.append_assoc]
    exact (hf.append_pending htype.pending).append_closed hclosed hdelimited

theorem delimited_references {first more : String} (next : String) (types : List TypeReference)
    (hf : Delimited first) (hm : Delimited more) :
    Delimited (references first next types ++ more) := by
  cases types with
  | nil =>
    rw [references, String.empty_append]
    exact hm
  | cons type types => exact ((hf.append _).append _).append _

/-! ## 5. Types -/

/-- The keyword and the name of a type in front of the rest of its definition. -/
theorem closed_defined {keyword rest : String} {word : String} {name : Name} {raw : List Token}
    (hk : Closed keyword [.name word]) (hn : isName name) (h : Closed rest raw)
    (hd : Delimited rest) :
    Closed (keyword ++ name ++ rest) (.name word :: .name name :: raw) :=
  (hk.append_pending (pending_name hn)).append_closed h hd

section Bodies

variable {entry : TypeEntry} {name : Name}

theorem fielded_written {interfaces : List Name} {fields : List FieldDefinition}
    (hi : Names entry.interfaces interfaces)
    (hf : List.Forall₂ (Field.Describes maxNesting) entry.fields fields) :
    ∃ raw chunks,
      Closed (references " implements " " & " entry.interfaces ++
        block (entry.fields.map Field.render)) raw ∧
      Delimited (references " implements " " & " entry.interfaces ++
        block (entry.fields.map Field.render)) ∧
      significant raw = listing (.name "implements") .ampersand interfaces ++
        inside .openBrace .closeBrace chunks ∧
      Entries Parser.fieldDefinition chunks ∧ chunks.map (·.2) = fields := by
  obtain ⟨raw, chunks, hclosed, hraw, hentries, hfields⟩ :=
    block_written (hf.imp fun _ _ h => h.written)
  have hfirst : Closed " implements " [.name "implements"] := fun _ _ => rfl
  have hnext : Closed " & " [.punct .ampersand] := fun _ _ => rfl
  have hdelimited := delimited_block (entry.fields.map Field.render)
  have hall := closed_references hi.wellNamed hfirst hnext ⟨_, _, rfl, rfl⟩ hclosed hdelimited
  rw [hi.tokens_eq] at hall
  refine ⟨_, chunks, hall,
    delimited_references " & " entry.interfaces ⟨_, _, rfl, rfl⟩ hdelimited, ?_, hentries, hfields⟩
  rw [significant_append, significant_listing (by simp), hraw]

theorem TypeEntry.DescribesBody.written {body : TypeBody}
    (h : entry.DescribesBody maxNesting body) (hn : isName name) :
    ∃ kind word raw, entry.kind = some kind ∧
      Closed (entry.body name kind) (.name word :: .name name :: raw) ∧
      Bodies word (significant raw) body := by
  cases h with
  | scalar hk =>
    have hword : Closed "scalar " [.name "scalar"] := fun _ _ => rfl
    exact ⟨.scalar, "scalar", [], hk, closed_defined hword hn closed_newline delimited_newline,
      .scalar⟩
  | @object interfaces fields hk hi hf =>
    obtain ⟨raw, chunks, hclosed, hdelimited, hraw, hentries, rfl⟩ := fielded_written hi hf
    have hword : Closed "type " [.name "type"] := fun _ _ => rfl
    refine ⟨.object, "type", raw, hk, ?_, hraw ▸ .object interfaces hentries⟩
    rw [TypeEntry.body, String.append_assoc]
    exact closed_defined hword hn hclosed hdelimited
  | @interface interfaces fields hk hi hf =>
    obtain ⟨raw, chunks, hclosed, hdelimited, hraw, hentries, rfl⟩ := fielded_written hi hf
    have hword : Closed "interface " [.name "interface"] := fun _ _ => rfl
    refine ⟨.interface, "interface", raw, hk, ?_, hraw ▸ .interface interfaces hentries⟩
    rw [TypeEntry.body, String.append_assoc]
    exact closed_defined hword hn hclosed hdelimited
  | @union members hk hm =>
    have hword : Closed "union " [.name "union"] := fun _ _ => rfl
    have hnext : Closed " | " [.punct .pipe] := fun _ _ => rfl
    have hlist := closed_references hm.wellNamed closed_equals hnext ⟨_, _, rfl, rfl⟩
      closed_newline delimited_newline
    rw [List.append_nil, hm.tokens_eq] at hlist
    refine ⟨.union, "union", listing (.punct .equals) .pipe members, hk, ?_, ?_⟩
    · rw [TypeEntry.body, String.append_assoc]
      exact closed_defined hword hn hlist
        (delimited_references " | " entry.members delimited_equals delimited_newline)
    · rw [significant_listing (by simp)]
      exact .union members
  | @enum values hk hv =>
    obtain ⟨raw, chunks, hclosed, hraw, hentries, rfl⟩ :=
      block_written (hv.imp fun _ _ h => h.written)
    have hword : Closed "enum " [.name "enum"] := fun _ _ => rfl
    exact ⟨.enum, "enum", raw, hk, closed_defined hword hn hclosed (delimited_block _),
      hraw ▸ .enum hentries⟩
  | @inputObject fields hk hf =>
    obtain ⟨raw, chunks, hclosed, hraw, hentries, rfl⟩ :=
      block_written (hf.imp fun _ _ h => h.written)
    have hword : Closed "input " [.name "input"] := fun _ _ => rfl
    exact ⟨.inputObject, "input", raw, hk, closed_defined hword hn hclosed (delimited_block _),
      hraw ▸ .inputObject hentries⟩

end Bodies

theorem outside_of_typeWords {word : String} (h : word ∈ typeWords) :
    outside (some (.name word)) := by
  refine ⟨by simp, ?_⟩
  rintro e
  cases e
  simp [typeWords] at h

/-- The text of an entry is scanned to a description, a keyword, the name and a body. -/
theorem TypeEntry.Describes.scanned {entry : TypeEntry} {type : TypeDefinition}
    (h : entry.Describes maxNesting type) (hb : isBuiltIn type.name = false) :
    ∃ word raw, Closed entry.render
        (descriptionTokens type.description ++ .name word :: .name type.name :: raw) ∧
      Bodies word (significant raw) type.body := by
  obtain ⟨kind, word, raw, hkind, hbody, hbodies⟩ := h.body.written h.isName
  refine ⟨word, raw, ?_, hbodies⟩
  have hrender : entry.render =
      "\n" ++ descriptionLine "" entry.description ++ entry.body type.name kind := by
    simp only [TypeEntry.render, h.name, hb, hkind, Bool.false_eq_true, if_false]
  rw [hrender, h.description]
  exact (closed_newline.append (closed_descriptionLine closed_empty entry.description)).append hbody

theorem definition_head (description : Option String) {word : String} (h : word ∈ typeWords)
    (more : List Token) : ∃ t ts, descriptionTokens description ++ .name word :: more = t :: ts ∧
      t ≠ .comma ∧ outside (some t) := by
  cases description with
  | none => exact ⟨_, _, rfl, by simp, outside_of_typeWords h⟩
  | some text => exact ⟨_, _, rfl, by simp, by simp [outside]⟩

/-- The tokens of a type with a description. -/
theorem defines_type {word : String} {name : Name} {raw : List Token} {body : TypeBody}
    (description : Option String) (h : Bodies word (significant raw) body) :
    Defines (descriptionTokens description ++ .name word :: .name name :: raw,
      .type ⟨description, name, [], body⟩) :=
  ⟨takesRaw_definition h, definition_head description h.mem (.name name :: raw)⟩

/-- The text of an entry is scanned to the definition of its type. -/
theorem TypeEntry.Describes.written {entry : TypeEntry} {type : TypeDefinition}
    (h : entry.Describes maxNesting type) (hb : isBuiltIn type.name = false) :
    ∃ raw, Closed entry.render raw ∧ Defines (raw, .type type) := by
  obtain ⟨word, raw, hclosed, hbodies⟩ := h.scanned hb
  have hdefines := @defines_type word type.name raw type.body type.description hbodies
  have htype : (⟨type.description, type.name, [], type.body⟩ : TypeDefinition) = type := by
    rw [← h.directives]
  rw [htype] at hdefines
  exact ⟨_, hclosed, hdefines⟩

/-! ## 6. Schemas -/

/-- Entries of built-in types write nothing, and the others the definitions that they stand for. -/
theorem entries_written_of {R : TypeEntry → TypeDefinition → Prop}
    (hn : ∀ entry type, R entry type → entry.name = some type.name)
    (hw : ∀ entry type, R entry type → isBuiltIn type.name = false →
      ∃ raw, Closed entry.render raw ∧ Defines (raw, .type type))
    {entries : List TypeEntry} {types : List TypeDefinition}
    (h : List.Forall₂ R (entries.filter fun entry => !entry.name.any isBuiltIn) types) :
    ∃ chunks : List (List Token × Definition),
      Closed (String.join (entries.map TypeEntry.render)) (chunks.flatMap (·.1)) ∧
      (∀ chunk ∈ chunks, Defines chunk) ∧ chunks.map (·.2) = types.map .type := by
  induction entries generalizing types with
  | nil =>
    cases h
    exact ⟨[], closed_empty, by simp, rfl⟩
  | cons entry entries ih =>
    by_cases hb : entry.name.any isBuiltIn = true
    · rw [List.filter_cons_of_neg (by simp [hb])] at h
      obtain ⟨chunks, hclosed, hdefines, hmap⟩ := ih h
      have hnothing : entry.render = "" := by
        cases hname : entry.name with
        | none => simp [hname] at hb
        | some name =>
          rw [hname] at hb
          have hb : isBuiltIn name = true := hb
          simp only [TypeEntry.render, hname, hb, if_true]
      refine ⟨chunks, ?_, hdefines, hmap⟩
      rw [List.map_cons, String.join_cons, hnothing, String.empty_append]
      exact hclosed
    · have hb : entry.name.any isBuiltIn = false := by simpa using hb
      rw [List.filter_cons_of_pos (by simp [hb])] at h
      cases h with
      | @cons _ type _ types htype htypes =>
        obtain ⟨chunks, hclosed, hdefines, hmap⟩ := ih htypes
        have hown : isBuiltIn type.name = false := by
          rw [hn entry type htype] at hb
          exact hb
        obtain ⟨raw, hentry, hdefine⟩ := hw entry type htype hown
        refine ⟨(raw, .type type) :: chunks, ?_, ?_, ?_⟩
        · rw [List.map_cons, String.join_cons, List.flatMap_cons]
          exact hentry.append hclosed
        · exact List.forall_mem_cons.mpr ⟨hdefine, hdefines⟩
        · rw [List.map_cons, List.map_cons, hmap]

theorem entries_written {entries : List TypeEntry} {types : List TypeDefinition}
    (h : List.Forall₂ (TypeEntry.Describes maxNesting)
      (entries.filter fun entry => !entry.name.any isBuiltIn) types) :
    ∃ chunks : List (List Token × Definition),
      Closed (String.join (entries.map TypeEntry.render)) (chunks.flatMap (·.1)) ∧
      (∀ chunk ∈ chunks, Defines chunk) ∧ chunks.map (·.2) = types.map .type :=
  entries_written_of (fun _ _ h => h.name) (fun _ _ h hb => h.written hb) h

theorem roots_eq_rootTypes (schema : SchemaEntry) :
    schema.roots = schema.rootTypes.map fun root => (root.1.keyword, root.2) := by
  unfold SchemaEntry.roots SchemaEntry.rootTypes
  cases schema.query <;> cases schema.mutation <;> cases schema.subscription <;> rfl

def rootLine (root : OperationKind × Name) : String :=
  "  " ++ root.1.keyword ++ ": " ++ root.2 ++ "\n"

theorem closed_rootLine {root : OperationKind × Name} (h : isName root.2) :
    Closed (rootLine root) (rootChunk root).1 := by
  have hword : isName root.1.keyword := by cases root.1 <;> decide
  have hkey := (closed_indent.append_pending (pending_name hword)).append_closed closed_colon
    delimited_colon
  exact (hkey.append_pending (pending_name h)).append_closed closed_newline delimited_newline

theorem significant_inside_rootChunk (roots : List (OperationKind × Name)) :
    significant (inside .openBrace .closeBrace (roots.map rootChunk)) =
      inside .openBrace .closeBrace (roots.map rootChunk) := by
  rw [significant_inside, List.map_map]
  rfl

theorem closed_join {α : Type} {text : α → String} {tokens : α → List Token} {parts : List α}
    (h : ∀ part ∈ parts, Closed (text part) (tokens part)) :
    Closed (String.join (parts.map text)) (parts.flatMap tokens) := by
  induction parts with
  | nil => exact closed_empty
  | cons part parts ih =>
    rw [List.map_cons, String.join_cons, List.flatMap_cons]
    exact (h part List.mem_cons_self).append (ih fun p hp => h p (List.mem_cons_of_mem _ hp))

theorem SchemaEntry.closed_rootBlock {schema : SchemaEntry} (hne : schema.rootTypes ≠ [])
    (hn : ∀ root ∈ schema.rootTypes, isName root.2) :
    Closed schema.rootBlock
      (.name "schema" :: inside .openBrace .closeBrace (schema.rootTypes.map rootChunk)) := by
  have hlines := closed_join fun root hr => closed_rootLine (hn root hr)
  cases hroots : schema.rootTypes with
  | nil => exact absurd hroots hne
  | cons root roots =>
    rw [hroots] at hlines
    have hrender : schema.rootBlock =
        "schema \x7b\n" ++ String.join ((root :: roots).map rootLine) ++ "\x7d\n" := by
      simp only [SchemaEntry.rootBlock, roots_eq_rootTypes, hroots, List.map_cons, block,
        ← String.append_assoc, List.map_map]
      rfl
    have hinside : inside .openBrace .closeBrace ((root :: roots).map rootChunk) =
        .punct .openBrace :: ((root :: roots).flatMap (fun root => (rootChunk root).1) ++
          [.punct .closeBrace]) := by
      rw [inside, List.flatMap_map]
      rfl
    have hopen : Closed "schema \x7b\n" [.name "schema", .punct .openBrace] := fun _ _ => rfl
    rw [hrender, hinside]
    exact (hopen.append hlines).append closed_closeBrace

/-- The tokens of the root types of a schema, and what they mean. -/
def SchemaEntry.rootsChunk (schema : SchemaEntry) : List Token × Definition :=
  (.name "schema" :: inside .openBrace .closeBrace (schema.rootTypes.map rootChunk),
    .schema ⟨[], schema.rootTypes⟩)

theorem SchemaEntry.defines_rootsChunk (schema : SchemaEntry) : Defines schema.rootsChunk := by
  refine ⟨Takes.raw ?_, _, _, rfl, by simp, by simp [outside]⟩
  rw [rootsChunk, significant_cons (by simp), significant_inside_rootChunk]
  exact takes_schema schema.rootTypes

/-- The text of a schema is scanned to its roots and the definitions of its types. -/
theorem SchemaEntry.Describes.written {schema : SchemaEntry} {types : List TypeDefinition}
    (h : schema.Describes maxNesting types) :
    ∃ chunks : List (List Token × Definition),
      Closed schema.render (chunks.flatMap (·.1)) ∧ (∀ chunk ∈ chunks, Defines chunk) ∧
      chunks.map (·.2) = .schema ⟨[], schema.rootTypes⟩ :: types.map .type := by
  obtain ⟨chunks, hclosed, hdefines, hmap⟩ := entries_written h.entries
  refine ⟨schema.rootsChunk :: chunks, (closed_rootBlock h.rooted h.isName).append hclosed,
    List.forall_mem_cons.mpr ⟨schema.defines_rootsChunk, hdefines⟩, ?_⟩
  rw [List.map_cons, hmap]
  rfl

end MockGraph.Introspection
