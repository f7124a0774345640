import MockGraph.Proofs.Introspection.Printing
import MockGraph.SchemaSource

/-!
# `Proofs/Introspection/RoundTrip`: the schema that an answer is read as

An introspected schema is printed, and the text is parsed and built. `ofPayload_of_describes` says
that this gives back what the answer describes, beside what is built in: every type with its kind,
its members in order, its descriptions and its deprecations, and the root types.

The parser bounds how deep a document may nest, and the printer does not. So the description is
bounded, too. `not_ofPayload_deep` shows that the bound can be neither dropped nor raised: one level
more, in a default value or in the type of a field, and the text is refused.
-/

set_option autoImplicit false

namespace MockGraph

open Syntax

/-! ## 1. Building from definitions alone -/

theorem repeatedNames_of_nodup {names : List Name} (h : names.Nodup) :
    repeatedNames names = [] := by
  induction names with
  | nil => rfl
  | cons name rest ih =>
    obtain ⟨hname, hrest⟩ := List.nodup_cons.mp h
    have hcontains : rest.contains name = false := by simpa using hname
    rw [repeatedNames, hcontains]
    exact ih hrest

/-- A document that defines its roots and its types, and extends nothing. -/
def definitions (roots : List (OperationKind × Name)) (types : List TypeDefinition) : Document :=
  .schema ⟨[], roots⟩ :: types.map .type

section Build

variable (roots : List (OperationKind × Name)) (types : List TypeDefinition)

theorem typeDefinitions_definitions : (definitions roots types).typeDefinitions = types := by
  simp [definitions, Document.typeDefinitions, List.filterMap_map]

theorem typeExtensions_definitions : (definitions roots types).typeExtensions = [] := by
  simp [definitions, Document.typeExtensions]

theorem schemaDefinitions_definitions :
    (definitions roots types).schemaDefinitions = [⟨[], roots⟩] := by
  simp [definitions, Document.schemaDefinitions]

theorem schemaExtensions_definitions : (definitions roots types).schemaExtensions = [] := by
  simp [definitions, Document.schemaExtensions]

theorem directiveDefinitions_definitions : (definitions roots types).directiveDefinitions = [] := by
  simp [definitions, Document.directiveDefinitions]

theorem isExecutable_definitions : (definitions roots types).isExecutable = false := by
  simp [definitions, Document.isExecutable, Document.operations, Document.fragments]

theorem buildTypes_definitions :
    TypeSystem.buildTypes (definitions roots types) = BuiltIn.types ++ types := by
  rw [TypeSystem.buildTypes, typeDefinitions_definitions, typeExtensions_definitions]
  exact List.map_id _

theorem assemble_definitions : TypeSystem.assemble (definitions roots types) =
    ⟨BuiltIn.types ++ types, BuiltIn.directives, roots, []⟩ := by
  have hroots : TypeSystem.definedRoots (definitions roots types) = roots := by
    simp [TypeSystem.definedRoots, schemaDefinitions_definitions]
  simp [TypeSystem.assemble, buildTypes_definitions, TypeSystem.buildDirectives,
    directiveDefinitions_definitions, hroots, schemaDefinitions_definitions,
    schemaExtensions_definitions]

theorem kindErrors_definitions (known : List TypeDefinition) :
    TypeSystem.kindErrors known (definitions roots types) = [] := by
  change TypeSystem.kindErrors known (types.map .type) = []
  induction types generalizing known with
  | nil => rfl
  | cons type types ih => exact ih (type :: known)

theorem builtIn_unique :
    ∀ type ∈ BuiltIn.types, ∀ names ∈ type.nameLists, names.Nodup := by decide

/-- Nothing is wrong with definitions in which every name stands once. -/
theorem build_definitions {roots : List (OperationKind × Name)} {types : List TypeDefinition}
    (hr : (roots.map (·.1.keyword)).Nodup) (ht : (types.map (·.name)).Nodup)
    (hb : ∀ type ∈ types, BuiltIn.isType type.name = false)
    (hm : ∀ type ∈ types, ∀ names ∈ type.nameLists, names.Nodup) :
    TypeSystem.build (definitions roots types) =
      .ok ⟨BuiltIn.types ++ types, BuiltIn.directives, roots, []⟩ := by
  have hschema : TypeSystem.schemaErrors (definitions roots types) = [] := by
    simp [TypeSystem.schemaErrors, schemaDefinitions_definitions, assemble_definitions,
      repeatedNames_of_nodup hr]
  have hnames : TypeSystem.nameErrors (definitions roots types) = [] := by
    have hown : (types.map (·.name)).filter BuiltIn.isType = [] := by
      rw [List.filter_eq_nil_iff]
      intro name hname
      obtain ⟨type, htype, rfl⟩ := List.mem_map.mp hname
      simp [hb type htype]
    simp [TypeSystem.nameErrors, typeDefinitions_definitions, directiveDefinitions_definitions,
      hown, repeatedNames_of_nodup ht, repeatedNames]
  have hmembers : TypeSystem.memberErrors (definitions roots types) = [] := by
    rw [TypeSystem.memberErrors, buildTypes_definitions, List.flatMap_eq_nil_iff]
    intro type htype
    rw [List.flatMap_eq_nil_iff]
    intro names hnames
    have hnodup : names.Nodup := by
      rcases List.mem_append.mp htype with h | h
      · exact builtIn_unique type h names hnames
      · exact hm type h names hnames
    rw [repeatedNames_of_nodup hnodup, List.map_nil]
  have herrors : TypeSystem.buildErrors (definitions roots types) = [] := by
    simp [TypeSystem.buildErrors, isExecutable_definitions, hschema, hnames,
      TypeSystem.orphanExtensions, typeExtensions_definitions, kindErrors_definitions, hmembers]
  simp [TypeSystem.build, herrors, assemble_definitions]

end Build

/-! ## 2. From an answer to a schema -/

theorem Syntax.Closed.parse {text : String} {tokens : List Token} (h : Closed text tokens) :
    Document.parse text = Document.ofLexemes (Lexeme.ofTokens false tokens) := by
  rw [Document.parse, Lexeme.scan, h.scan]
  rfl

namespace Introspection

theorem isBuiltIn_of_isType {name : Name} (h : BuiltIn.isType name = true) :
    isBuiltIn name = true := by
  have hall : ∀ type ∈ BuiltIn.types, isBuiltIn type.name = true := by decide
  obtain ⟨type, htype, hname⟩ := List.any_eq_true.mp h
  have heq : type.name = name := by simpa using hname
  exact heq ▸ hall type htype

theorem rootTypes_nodup (schema : SchemaEntry) :
    (schema.rootTypes.map (·.1.keyword)).Nodup := by
  unfold SchemaEntry.rootTypes
  cases schema.query <;> cases schema.mutation <;> cases schema.subscription <;>
    simp [OperationKind.keyword]

section Describes

variable {limit : Nat} {schema : SchemaEntry} {types : List TypeDefinition}

theorem exists_entry {entries : List TypeEntry}
    (h : List.Forall₂ (TypeEntry.Describes limit) entries types) {type : TypeDefinition}
    (ht : type ∈ types) : ∃ entry ∈ entries, entry.Describes limit type := by
  induction h with
  | nil => cases ht
  | @cons entry first entries rest hfirst _ ih =>
    rcases List.mem_cons.mp ht with rfl | ht
    · exact ⟨entry, List.mem_cons_self, hfirst⟩
    · obtain ⟨found, hfound, hdescribes⟩ := ih ht
      exact ⟨found, List.mem_cons_of_mem _ hfound, hdescribes⟩

/-- No described type is built in. -/
theorem SchemaEntry.Describes.own (h : schema.Describes limit types) :
    ∀ type ∈ types, BuiltIn.isType type.name = false := by
  intro type ht
  obtain ⟨entry, hentry, hdescribes⟩ := exists_entry h.entries ht
  have hown := (List.mem_filter.mp hentry).2
  rw [hdescribes.name] at hown
  by_contra hbuilt
  have hbuilt : isBuiltIn type.name = true := isBuiltIn_of_isType (by simpa using hbuilt)
  simp [hbuilt] at hown

theorem SchemaEntry.Describes.members (h : schema.Describes limit types) :
    ∀ type ∈ types, ∀ names ∈ type.nameLists, names.Nodup := by
  intro type ht
  obtain ⟨entry, -, hdescribes⟩ := exists_entry h.entries ht
  exact hdescribes.unique

end Describes

/-- A text that is scanned to definitions is parsed to them. -/
theorem parse_of_closed {text : String} {chunks : List (List Token × Definition)} (hne : chunks ≠ [])
    (h : Closed text (chunks.flatMap (·.1))) (hd : ∀ chunk ∈ chunks, Defines chunk) :
    Document.parse text = .ok (chunks.map (·.2)) := by
  rw [h.parse]
  exact ofLexemes_definitions hne hd false

theorem parse_render {schema : SchemaEntry} {types : List TypeDefinition}
    (h : schema.Describes maxNesting types) :
    Document.parse schema.render = .ok (definitions schema.rootTypes types) := by
  obtain ⟨chunks, hclosed, hdefines, hmap⟩ := h.written
  have hne : chunks ≠ [] := by
    rintro rfl
    cases hmap
  rw [parse_of_closed hne hclosed hdefines, hmap]
  rfl

section Reading

variable {payload : Payload} {schema : SchemaEntry}

theorem ofPayload_of_document {document : Document} (hp : payload.schema = some schema)
    (h : Document.parse schema.render = .ok document) :
    TypeSystem.ofPayload payload =
      (TypeSystem.build document).mapError fun errors => errors.map .build := by
  have hsdl : payload.sdl? = some schema.render := by rw [Payload.sdl?, hp, Option.map_some]
  have hdocuments : [schema.render].mapM Document.parse = .ok [document] := by
    rw [List.mapM_cons, h]
    rfl
  unfold TypeSystem.ofPayload
  rw [hsdl]
  change TypeSystem.parseAll [schema.render] = _
  rw [TypeSystem.parseAll, hdocuments]
  simp only [List.flatten_cons, List.flatten_nil, List.append_nil]

theorem ofPayload_of_syntaxError {error : SyntaxError} (hp : payload.schema = some schema)
    (h : Document.parse schema.render = .error error) :
    TypeSystem.ofPayload payload = .error [.syntactic error] := by
  have hsdl : payload.sdl? = some schema.render := by rw [Payload.sdl?, hp, Option.map_some]
  have hdocuments : [schema.render].mapM Document.parse = .error error := by
    rw [List.mapM_cons, h]
    rfl
  unfold TypeSystem.ofPayload
  rw [hsdl]
  change TypeSystem.parseAll [schema.render] = _
  rw [TypeSystem.parseAll, hdocuments]

end Reading

/-- What an answer describes is what it is read as. -/
theorem ofPayload_of_describes {payload : Payload} {schema : SchemaEntry}
    {types : List TypeDefinition} (hp : payload.schema = some schema)
    (h : schema.Describes maxNesting types) :
    TypeSystem.ofPayload payload =
      .ok ⟨BuiltIn.types ++ types, BuiltIn.directives, schema.rootTypes, []⟩ := by
  have hsdl : payload.sdl? = some schema.render := by rw [Payload.sdl?, hp, Option.map_some]
  have hbuild := build_definitions (rootTypes_nodup schema) h.unique h.own h.members
  have hdocuments : [schema.render].mapM Document.parse =
      .ok [definitions schema.rootTypes types] := by
    rw [List.mapM_cons, parse_render h]
    rfl
  unfold TypeSystem.ofPayload
  rw [hsdl]
  change TypeSystem.parseAll [schema.render] = _
  rw [TypeSystem.parseAll, hdocuments]
  simp only [List.flatten_cons, List.flatten_nil, List.append_nil, hbuild]
  rfl

namespace Sample

def reference (name : Name) : TypeReference := .mk (some .scalar) (some name) none

theorem denotes {name : Name} (h : isName name) : (reference name).Denotes (.named name) :=
  .named (by simp) (by simp) h

/-- A type reference `[name!]!`. -/
def several (name : Name) : TypeReference :=
  .mk (some .nonNull) none (some (.mk (some .list) none
    (some (.mk (some .nonNull) none (some (reference name))))))

theorem denotes_several {name : Name} (h : isName name) :
    (several name).Denotes (.nonNullList (.nonNullNamed name)) :=
  .nonNull (.list (.nonNull (denotes h) rfl)) rfl

/-- A schema with all kinds of types, a built-in one among them. -/
def shop : SchemaEntry where
  query := some "Query"
  mutation := none
  subscription := none
  types := [
    some ⟨some .scalar, some "ID", some "built in", [], [], [], [], []⟩,
    none,
    some ⟨some .object, some "Query", some "The \"entry\" point.\n", [
      ⟨some "items", some "", some (several "Item"), false, some "not read"⟩,
      ⟨some "all", none, some (reference "Any"), true, some "use \\items"⟩,
      ⟨some "old", none, some (reference "Date"), true, none⟩], [], [reference "Node"], [], []⟩,
    some ⟨some .interface, some "Node", none, [], [], [], [], []⟩,
    some ⟨some .union, some "Any", none, [], [], [], [], [reference "Item", reference "Query"]⟩,
    some ⟨some .object, some "Item", none, [], [], [], [], []⟩,
    some ⟨some .scalar, some "Date", none, [], [], [], [], []⟩,
    some ⟨some .enum, some "Order", none, [], [], [],
      [⟨some "UP", none, false, none⟩, ⟨some "DOWN", some "reversed", true, some ""⟩], []⟩,
    some ⟨some .inputObject, some "Filter", none, [],
      [⟨"order", none, reference "Order", some "\x7bby: [UP, null], n: 1.5,\x7d # both"⟩,
        ⟨"limit", some "at most", several "Date", none⟩], [], [], []⟩]

/-- The types of the schema that are not built in. -/
def shopTypes : List TypeDefinition := [
  ⟨some "The \"entry\" point.\n", "Query", [], .object ["Node"] [
    ⟨none, "items", [], .nonNullList (.nonNullNamed "Item"), []⟩,
    ⟨none, "all", [], .named "Any", [⟨"deprecated", [⟨"reason", .string "use \\items"⟩]⟩]⟩,
    ⟨none, "old", [], .named "Date", [⟨"deprecated", []⟩]⟩]⟩,
  ⟨none, "Node", [], .interface [] []⟩,
  ⟨none, "Any", [], .union ["Item", "Query"]⟩,
  ⟨none, "Item", [], .object [] []⟩,
  ⟨none, "Date", [], .scalar⟩,
  ⟨none, "Order", [], .enum [⟨none, "UP", []⟩,
    ⟨some "reversed", "DOWN", [⟨"deprecated", [⟨"reason", .string ""⟩]⟩]⟩]⟩,
  ⟨none, "Filter", [], .inputObject [
    ⟨none, "order", .named "Order",
      some (.object [("by", .list [.enum "UP", .null]), ("n", .float "1.5")]), []⟩,
    ⟨some "at most", "limit", .nonNullList (.nonNullNamed "Date"), none, []⟩]⟩]

theorem order_default : DefaultText maxNesting (some "\x7bby: [UP, null], n: 1.5,\x7d # both")
    (some (.object [("by", .list [.enum "UP", .null]), ("n", .float "1.5")])) := by
  have hitems : ∀ item ∈ [([Token.name "UP"], Value.enum "UP"), ([.name "null"], .null)],
      Literal (maxNesting - 2) item.1 item.2 := by
    exact List.forall_mem_cons.mpr ⟨.enum (by decide), List.forall_mem_cons.mpr ⟨.null, by simp⟩⟩
  have hfields : ∀ field ∈ [("by", [Token.punct .openBracket, .name "UP", .name "null",
      .punct .closeBracket], Value.list [.enum "UP", .null]), ("n", [.float "1.5"], .float "1.5")],
      Literal (maxNesting - 1) field.2.1 field.2.2 := by
    exact List.forall_mem_cons.mpr
      ⟨.list hitems, List.forall_mem_cons.mpr ⟨.float "1.5", by simp⟩⟩
  exact .some rfl (.object hfields)

theorem describes_field {name : Name} {description reason : Option String} {deprecated : Bool}
    {reference : TypeReference} {type : TypeRef} (hn : isName name) (ht : reference.Denotes type)
    (hl : type.lists ≤ maxNesting) :
    Field.Describes maxNesting ⟨some name, description, some reference, deprecated, reason⟩
      ⟨spoken description, name, [], type, deprecationMark deprecated reason⟩ :=
  ⟨rfl, hn, ⟨reference, rfl, ht⟩, hl, rfl, rfl, rfl⟩

theorem describes_shop : shop.Describes maxNesting shopTypes := by
  refine ⟨by decide, by decide, ?_, by decide⟩
  refine .cons ?query (.cons ?node (.cons ?any (.cons ?item (.cons ?date (.cons ?order
    (.cons ?filter .nil))))))
  case query =>
    refine ⟨rfl, rfl, rfl, rfl, .object rfl (.cons (denotes rfl) .nil) ?_, by decide⟩
    refine .cons ?_ (.cons ?_ (.cons ?_ .nil))
    · exact describes_field rfl (denotes_several rfl) (by decide)
    · exact describes_field rfl (denotes rfl) (by decide)
    · exact describes_field rfl (denotes rfl) (by decide)
  case node => exact ⟨rfl, rfl, rfl, rfl, .interface rfl .nil .nil, by decide⟩
  case any =>
    exact ⟨rfl, rfl, rfl, rfl, .union rfl (.cons (denotes rfl) (.cons (denotes rfl) .nil)),
      by decide⟩
  case item => exact ⟨rfl, rfl, rfl, rfl, .object rfl .nil .nil, by decide⟩
  case date => exact ⟨rfl, rfl, rfl, rfl, .scalar rfl, by decide⟩
  case order =>
    refine ⟨rfl, rfl, rfl, rfl, .enum rfl (.cons ?_ (.cons ?_ .nil)), by decide⟩
    · exact ⟨rfl, rfl, by decide, rfl, rfl⟩
    · exact ⟨rfl, rfl, by decide, rfl, rfl⟩
  case filter =>
    refine ⟨rfl, rfl, rfl, rfl, .inputObject rfl (.cons ?_ (.cons ?_ .nil)), by decide⟩
    · exact ⟨rfl, rfl, denotes rfl, by decide, order_default, rfl, rfl⟩
    · exact ⟨rfl, rfl, denotes_several rfl, by decide, .none, rfl, rfl⟩

end Sample

theorem ofPayload_of_describes_shop :
    Sample.shop.Describes maxNesting Sample.shopTypes ∧
      TypeSystem.ofPayload ⟨true, some Sample.shop⟩ =
        .ok ⟨BuiltIn.types ++ Sample.shopTypes, BuiltIn.directives, [(.query, "Query")], []⟩ :=
  ⟨Sample.describes_shop, ofPayload_of_describes rfl Sample.describes_shop⟩

/-! ## 3. Beyond the bound -/

namespace Sample

/-- A list in a list, and so on, down to an empty one. -/
def nested : Nat → Value
  | 0 => .list []
  | depth + 1 => .list [nested depth]

def nestedTokens (depth : Nat) : List Token :=
  List.replicate (depth + 1) (.punct .openBracket) ++
    List.replicate (depth + 1) (.punct .closeBracket)

def nestedText (depth : Nat) : String :=
  String.ofList (List.replicate (depth + 1) '[') ++ String.ofList (List.replicate (depth + 1) ']')

theorem literal_nested (depth : Nat) : Literal depth (nestedTokens depth) (nested depth) := by
  induction depth with
  | zero => exact .emptyList
  | succ depth ih =>
    have hinner : ∀ item ∈ [(nestedTokens depth, nested depth)], Literal depth item.1 item.2 := by
      simpa using ih
    have htokens : nestedTokens (depth + 1) = .punct .openBracket ::
        ([(nestedTokens depth, nested depth)].flatMap (·.1) ++ [.punct .closeBracket]) := by
      simp only [nestedTokens, List.flatMap_cons, List.flatMap_nil, List.append_nil]
      rw [List.replicate_succ, List.replicate_succ' (n := depth + 1), List.cons_append,
        List.append_assoc]
    rw [htokens]
    exact .list hinner

theorem closed_replicate {c : Char} {p : Punctuator}
    (h : ∀ tokens, Lexer.start tokens c = .ok ⟨.punct p :: tokens, .between⟩) (n : Nat) :
    Closed (String.ofList (List.replicate n c)) (List.replicate n (.punct p)) := by
  induction n with
  | zero => exact closed_empty
  | succ n ih =>
    intro before rest
    have hrest := ih (.punct p :: before) rest
    rw [String.toList_ofList] at hrest
    have hfirst : Lexer.step ⟨before, .between⟩ c = .ok ⟨.punct p :: before, .between⟩ := h before
    rw [String.toList_ofList, List.replicate_succ, List.cons_append, foldlM_step_cons hfirst, hrest,
      List.replicate_succ, List.reverse_cons, List.append_assoc]
    rfl

theorem scan_nestedText (depth : Nat) : Token.scan (nestedText depth) = .ok (nestedTokens depth) :=
  ((closed_replicate (fun _ => rfl) _).append (closed_replicate (fun _ => rfl) _)).scan

theorem defaultText_nested (depth : Nat) :
    DefaultText depth (some (nestedText depth)) (some (nested depth)) := by
  have hcommas : significant (nestedTokens depth) = nestedTokens depth := by
    simp [nestedTokens, significant]
  refine .some (scan_nestedText depth) ?_
  rw [hcommas]
  exact literal_nested depth

/-- A list type of list types, and so on. -/
def listed : Nat → TypeRef
  | 0 => .named "Area"
  | depth + 1 => .list (listed depth)

def listedReference : Nat → TypeReference
  | 0 => reference "Area"
  | depth + 1 => .mk (some .list) none (some (listedReference depth))

theorem denotes_listed (depth : Nat) : (listedReference depth).Denotes (listed depth) := by
  induction depth with
  | zero => exact denotes (by decide)
  | succ depth ih => exact .list ih

theorem lists_listed (depth : Nat) : (listed depth).lists = depth := by
  induction depth with
  | zero => rfl
  | succ depth ih => exact congrArg (· + 1) ih

theorem tokens_listed (depth : Nat) : (listed depth).tokens =
    List.replicate depth (.punct .openBracket) ++
      (.name "Area" :: List.replicate depth (.punct .closeBracket)) := by
  induction depth with
  | zero => rfl
  | succ depth ih =>
    rw [listed, TypeRef.tokens, ih, List.replicate_succ, List.replicate_succ', List.cons_append,
      List.append_assoc, List.cons_append]

def queryEntry : TypeEntry :=
  ⟨some .object, some "Query", none,
    [⟨some "id", none, some (reference "ID"), false, none⟩], [], [], [], []⟩

def areaEntry : TypeEntry := ⟨some .scalar, some "Area", none, [], [], [], [], []⟩

def filterEntry (type : TypeReference) (default : Option String) : TypeEntry :=
  ⟨some .inputObject, some "Filter", none, [], [⟨"within", none, type, default⟩], [], [], []⟩

def rooted : SchemaEntry := ⟨some "Query", none, none, []⟩

/-- A schema with one input field. -/
def filtered (type : TypeReference) (default : Option String) : SchemaEntry :=
  ⟨some "Query", none, none, [some queryEntry, some areaEntry, some (filterEntry type default)]⟩

def filteredTypes (type : TypeRef) (default : Option Value) : List TypeDefinition := [
  ⟨none, "Query", [], .object [] [⟨none, "id", [], .named "ID", []⟩]⟩,
  ⟨none, "Area", [], .scalar⟩,
  ⟨none, "Filter", [], .inputObject [⟨none, "within", type, default, []⟩]⟩]

section Filtered

variable {reference : TypeReference} {type : TypeRef} {text : Option String}

theorem describes_filtered {limit : Nat} {value : Option Value} (ht : reference.Denotes type)
    (hl : type.lists ≤ limit) (hd : DefaultText limit text value) :
    (filtered reference text).Describes limit (filteredTypes type value) := by
  have hroots : (filtered reference text).rootTypes = [(.query, "Query")] := rfl
  have hnames : (filteredTypes type value).map (·.name) = ["Query", "Area", "Filter"] := rfl
  have hquery : isName "Query" ∧ isName "id" ∧ isName "ID" := by decide
  have hfilter : isName "Filter" ∧ isName "within" ∧ isName "Area" := by decide
  refine ⟨by simp [hroots], by simpa [hroots] using hquery.1, ?_, by rw [hnames]; decide⟩
  refine .cons ⟨rfl, hquery.1, rfl, rfl, .object rfl .nil (.cons ?id .nil), ?idOnce⟩
    (.cons ⟨rfl, hfilter.2.2, rfl, rfl, .scalar rfl, ?areaOnce⟩
      (.cons ⟨rfl, hfilter.1, rfl, rfl, .inputObject rfl (.cons ?within .nil), ?withinOnce⟩ .nil))
  case id =>
    exact ⟨rfl, hquery.2.1, ⟨_, rfl, denotes hquery.2.2⟩, Nat.zero_le _, rfl, rfl, rfl⟩
  case within => exact ⟨rfl, hfilter.2.1, ht, hl, hd, rfl, rfl⟩
  case idOnce => simp [TypeDefinition.nameLists]
  case areaOnce => simp [TypeDefinition.nameLists]
  case withinOnce => simp [TypeDefinition.nameLists]

/-- The tokens of the schema, given those of the type and the default value. -/
def filteredTokens (type default : List Token) : List Token :=
  [.name "schema", .punct .openBrace, .name "query", .punct .colon, .name "Query",
    .punct .closeBrace, .name "type", .name "Query", .punct .openBrace, .name "id", .punct .colon,
    .name "ID", .punct .closeBrace, .name "scalar", .name "Area", .name "input", .name "Filter",
    .punct .openBrace, .name "within", .punct .colon] ++ (type ++ default ++ [.punct .closeBrace])

theorem closed_filterEntry {raw : List Token} (ht : reference.Denotes type)
    (hd : Closed (defaultText text ++ "\n") raw) (hdl : Delimited (defaultText text ++ "\n")) :
    Closed (filterEntry reference text).render
      ([.name "input", .name "Filter", .punct .openBrace] ++
        (([.name "within", .punct .colon] ++ (type.tokens ++ raw)) ++ [.punct .closeBrace])) := by
  have hbuiltIn : isBuiltIn "Filter" = false := by decide
  have hentry : (filterEntry reference text).render =
      ("\n" ++ descriptionLine "" none ++ "input " ++ "Filter" ++ " \x7b\n") ++
        ((descriptionLine "  " none ++ "  " ++ "within" ++ ": " ++
          (reference.render ++ (defaultText text ++ "\n"))) ++ "\x7d\n") := by
    simp only [filterEntry, TypeEntry.render, hbuiltIn, Bool.false_eq_true, if_false,
      TypeEntry.body, block, List.map_cons, List.map_nil, String.join_cons, String.join_nil,
      String.append_empty, InputField.render_eq, String.append_assoc]
  have hopen : Closed ("\n" ++ descriptionLine "" none ++ "input " ++ "Filter" ++ " \x7b\n")
      [.name "input", .name "Filter", .punct .openBrace] := fun _ _ => rfl
  have hname : Closed (descriptionLine "  " none ++ "  " ++ "within" ++ ": ")
      [.name "within", .punct .colon] := fun _ _ => rfl
  rw [hentry]
  exact hopen.append ((hname.append (ht.pending.append_closed hd hdl)).append closed_closeBrace)

theorem parse_filtered {raw : List Token} (ht : reference.Denotes type)
    (hd : Closed (defaultText text ++ "\n") raw) (hdl : Delimited (defaultText text ++ "\n")) :
    Document.parse (filtered reference text).render =
      Document.ofLexemes (Lexeme.ofTokens false (filteredTokens type.tokens raw)) := by
  have hroots : Closed rooted.rootBlock [.name "schema", .punct .openBrace, .name "query",
      .punct .colon, .name "Query", .punct .closeBrace] := fun _ _ => rfl
  have hquery : Closed queryEntry.render [.name "type", .name "Query", .punct .openBrace,
      .name "id", .punct .colon, .name "ID", .punct .closeBrace] := fun _ _ => rfl
  have harea : Closed areaEntry.render [.name "scalar", .name "Area"] := fun _ _ => rfl
  have hrender : (filtered reference text).render = rooted.rootBlock ++
      (queryEntry.render ++ (areaEntry.render ++ (filterEntry reference text).render)) := by
    have hroot : (filtered reference text).rootBlock = rooted.rootBlock := rfl
    rw [SchemaEntry.render, hroot]
    simp only [filtered, List.filterMap_cons, List.filterMap_nil, id_eq, List.map_cons,
      List.map_nil, String.join_cons, String.join_nil, String.append_empty]
  have hall := hroots.append (hquery.append (harea.append (closed_filterEntry ht hd hdl)))
  have htokens : Closed (filtered reference text).render (filteredTokens type.tokens raw) := by
    rw [hrender]
    simpa [filteredTokens] using hall
  exact htokens.parse

end Filtered

def isTooDeep : Except SyntaxError Document → Bool
  | .error .tooDeep => true
  | _ => false

theorem ofPayload_of_isTooDeep {schema : SchemaEntry}
    (h : isTooDeep (Document.parse schema.render) = true) :
    TypeSystem.ofPayload ⟨false, some schema⟩ = .error [.syntactic .tooDeep] := by
  have hparse : Document.parse schema.render = .error .tooDeep := by
    unfold isTooDeep at h
    split at h
    · assumption
    · cases h
  exact ofPayload_of_syntaxError rfl hparse

theorem parse_nested (depth : Nat) :
    Document.parse (filtered (reference "Area") (some (nestedText depth))).render =
      Document.ofLexemes (Lexeme.ofTokens false (filteredTokens (TypeRef.named "Area").tokens
        ([.punct .equals] ++ nestedTokens depth))) := by
  have hdefault : Closed (defaultText (some (nestedText depth)) ++ "\n")
      ([.punct .equals] ++ nestedTokens depth) := by
    rw [defaultText, String.append_assoc]
    exact closed_equals.append (closed_line (scan_nestedText depth))
  exact parse_filtered (denotes (by decide)) hdefault ((delimited_equals.append _).append _)

theorem parse_listed (depth : Nat) :
    Document.parse (filtered (listedReference depth) none).render =
      Document.ofLexemes (Lexeme.ofTokens false (filteredTokens (listed depth).tokens [])) := by
  have hdefault : Closed (defaultText none ++ "\n") [] := closed_empty.append closed_newline
  exact parse_filtered (denotes_listed depth) hdefault ⟨_, _, rfl, rfl⟩

theorem isTooDeep_nested : isTooDeep
    (Document.parse (filtered (reference "Area") (some (nestedText 501))).render) = true := by
  rw [parse_nested]
  decide +kernel

theorem isTooDeep_listed :
    isTooDeep (Document.parse (filtered (listedReference 501) none).render) = true := by
  rw [parse_listed, tokens_listed]
  decide +kernel

/-- One level beyond the bound, an answer describes a schema and is refused: for its default value
in the first case, for the type of its field in the second. -/
theorem not_ofPayload_deep :
    ((filtered (reference "Area") (some (nestedText 501))).Describes 501
        (filteredTypes (.named "Area") (some (nested 501))) ∧
      TypeSystem.ofPayload ⟨false, some (filtered (reference "Area") (some (nestedText 501)))⟩ =
        .error [.syntactic .tooDeep]) ∧
    (filtered (listedReference 501) none).Describes 501 (filteredTypes (listed 501) none) ∧
      TypeSystem.ofPayload ⟨false, some (filtered (listedReference 501) none)⟩ =
        .error [.syntactic .tooDeep] := by
  have harea : (reference "Area").Denotes (.named "Area") := denotes (by decide)
  have hnested := describes_filtered harea (Nat.zero_le _) (defaultText_nested 501)
  have hlisted := describes_filtered (denotes_listed 501) (Nat.le_of_eq (lists_listed 501)) .none
  exact ⟨⟨hnested, ofPayload_of_isTooDeep isTooDeep_nested⟩, hlisted,
    ofPayload_of_isTooDeep isTooDeep_listed⟩

end Sample

end Introspection

end MockGraph
