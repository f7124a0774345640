import MockGraph.Generation
import MockGraph.Proofs.Files.Addresses
import MockGraph.Proofs.Project.Discovery

/-!
# `Proofs/Project/Sources`: one introspected schema, handed over in several ways

The answer to an introspection query can be handed over as it is, as the definitions that are
printed for it, as the schema of its file, or by a project whose configuration points to the file.
All of these print the answer and build what is printed. They differ in the order of the stages, and
so in the failures: what a file is refused for comes before there is a source, or as its lack.

`introspected_sources` says what comes of each of them, for every document and all options. The file
of an answer is found again under its name in its own directory (`resolve_fileName`), which is how a
single file is loaded. That an answer is a whole response, or only its data, makes no difference
(`ofSpelled?_wrapped`).
-/

set_option autoImplicit false

namespace MockGraph

open Syntax

/-! ## 1. A file in its directory -/

section Names

variable {tree node : FileTree} {home : FileTree.Place} {path : FilePath} {name : String}

open FileTree in
/-- A file is found again under its name in its directory. -/
theorem FileTree.resolve_fileName (hname : path.fileName? = some name)
    (h : tree.resolve home path = .ok node) :
    tree.resolve home ((directoryOf path).join name) = .ok node := by
  obtain ⟨hnul, place, hplace, hnode⟩ := locate_of_resolve h
  obtain ⟨hstays, -, hslash, parent, hparent, hmoves⟩ := moves_fileName hname
  rw [locate, origin, hmoves, ← isAbsolute_parent hparent, ← origin] at hplace
  obtain ⟨outer, houter, hstep⟩ := Place.follow_snoc_eq_ok.mp hplace
  have hin : name ∈ moves path := hmoves ▸ List.mem_append_right _ (List.mem_singleton_self name)
  have hnulName : '\x00' ∉ name.toList := fun hmem =>
    hnul ((mem_moves (by decide) (by decide)).mpr ⟨name, hin, hmem⟩)
  have hempty : name ≠ "" := by
    rintro rfl
    cases hstays
  rw [directoryOf, hparent, Option.getD_some,
    resolve_join houter (Place.isDirectory_of_step hstep)
      (not_mem_parent (by decide) (by decide) hparent hnul) hslash hnulName hempty, hstep, ← hnode]
  rfl

theorem read_fileName {text : String} (hname : path.fileName? = some name)
    (h : Id.run ((tree.access home).read path) = .ok text) :
    Id.run ((tree.access home).read ((directoryOf path).join name)) = .ok text := by
  cases hnode : tree.resolve home path with
  | error error =>
    simp only [FileTree.access, hnode] at h
    cases h
  | ok node =>
    simp only [FileTree.access, hnode] at h
    simp only [FileTree.access, FileTree.resolve_fileName hname hnode]
    exact h

theorem extension?_fileName (hname : path.fileName? = some name) :
    ((directoryOf path).join name).extension? = path.extension? := by
  obtain ⟨hstays, hup, hslash, -⟩ := FileTree.moves_fileName hname
  rw [FilePath.extension?, FilePath.extension?, hname,
    FileTree.fileName?_join _ hslash hstays hup]

/-- A name without a slash is no address of another machine. -/
theorem isRemote_of_not_mem (hslash : '/' ∉ name.toList) : isRemote name = false := by
  rw [isRemote, List.any_eq_false]
  intro scheme hscheme hprefix
  refine hslash ((List.isPrefixOf_iff_prefix.mp hprefix).subset ?_)
  simp only [List.mem_cons, List.not_mem_nil, or_false] at hscheme
  rcases hscheme with rfl | rfl
  · decide
  · decide

end Names

/-! ## 2. Loading one file -/

section Loading

variable {disk : FileAccess Id} {start path : FilePath} {name : String}

/-- The schema of definitions, or how a project complains about them. -/
def schemaOfDefinitions (definitions : String) : Except ProjectError TypeSystem :=
  (TypeSystem.parse definitions).mapError fun causes =>
    .invalidDefinitions (Diagnostic.lines causes)

theorem match_parseAll_singleton (definitions : String) :
    (match TypeSystem.parseAll [definitions] with
      | .ok schema => .ok schema
      | .error causes => .error (.invalidDefinitions (Diagnostic.lines causes))) =
      schemaOfDefinitions definitions := by
  rw [schemaOfDefinitions, TypeSystem.parse]
  cases TypeSystem.parseAll [definitions] <;> rfl

theorem schemaOfFile_of_loads {definitions : String} (hname : path.fileName? = some name)
    (h : Loads disk (directoryOf path) name definitions) :
    (schemaOfFile disk path).run = schemaOfDefinitions definitions := by
  have hends : (loadSchema disk (directoryOf path) [name]).Ends
      (fun _ => (pure () : Id Unit)) _ _ :=
    ends_loadSchema_of_loads (List.cons_ne_nil name []) (.cons h .nil)
  rw [schemaOfFile, hname, Option.getD_some, ← match_parseAll_singleton]
  exact Loading.ends_nothing hends

theorem schemaOfFile_of_refuses {error : ProjectError} {reads : List FilePath}
    (hname : path.fileName? = some name) (h : Refuses disk (directoryOf path) name error reads) :
    (schemaOfFile disk path).run = .error error := by
  have hends : (loadSchema disk (directoryOf path) ([] ++ [name])).Ends
      (fun _ => (pure () : Id Unit)) (.error error) ([].map (directoryOf path).join ++ reads) :=
    ends_loadSchema_of_refuses (List.forall_mem_nil _) h
  rw [schemaOfFile, hname, Option.getD_some]
  exact Loading.ends_nothing hends

variable {file : String} {configuration : Configuration} {pointer : SchemaPointer}

theorem discoverSchema_of_loads {definitions : String}
    (hproject : BelongsTo disk start path configuration) (hpointer : configuration.PointsTo pointer)
    (hpaths : pointer.paths = [file]) (h : Loads disk (directoryOf path) file definitions) :
    (discoverSchema disk start).run = schemaOfDefinitions definitions := by
  have hne : pointer.paths ≠ [] := by
    rw [hpaths]
    exact List.cons_ne_nil file []
  have hloads : List.Forall₂ (Loads disk (directoryOf path)) pointer.paths [definitions] := by
    rw [hpaths]
    exact .cons h .nil
  rw [schemaOfDefinitions, TypeSystem.parse]
  cases hschema : TypeSystem.parseAll [definitions] with
  | error causes =>
    exact Loading.ends_nothing
      (Discovers.invalidDefinitions hproject hpointer hne hloads hschema).ends
  | ok schema =>
    exact Loading.ends_nothing (Discovers.found hproject hpointer hne hloads hschema).ends

theorem discoverSchema_of_refuses {error : ProjectError} {reads : List FilePath}
    (hproject : BelongsTo disk start path configuration) (hpointer : configuration.PointsTo pointer)
    (hpaths : pointer.paths = [file]) (h : Refuses disk (directoryOf path) file error reads) :
    (discoverSchema disk start).run = .error error := by
  have hrefused : Discovers disk start (.error error) _ :=
    .refused hproject hpointer hpaths (List.forall_mem_nil _) h
  exact Loading.ends_nothing hrefused.ends

end Loading

/-! ## 3. Handing over an answer -/

section Answers

open Introspection

variable {disk : FileAccess Id} {path start : FilePath} {text : String} {payload : Payload}

/-- A file with the extension of JSON holds this text. -/
structure HoldsJson (disk : FileAccess Id) (path : FilePath) (text : String) : Prop where
  read : Id.run (disk.read path) = .ok text
  extension : path.extension? = some "json"

/-- The configuration of the project of `start` points to one file, which holds this text. -/
inductive ProjectHoldsJson (disk : FileAccess Id) (start : FilePath) :
    FilePath → String → Prop where
  | mk {configured : FilePath} {configuration : Configuration} {pointer : SchemaPointer}
      {file text : String} (hproject : BelongsTo disk start configured configuration)
      (hpointer : configuration.PointsTo pointer) (hpaths : pointer.paths = [file])
      (hlocal : isRemote file = false)
      (hholds : HoldsJson disk ((directoryOf configured).join file) text) :
      ProjectHoldsJson disk start ((directoryOf configured).join file) text

theorem HoldsJson.loads {base : FilePath} {pointer definitions : String}
    (h : HoldsJson disk (base.join pointer) text) (hlocal : isRemote pointer = false)
    (hpayload : Payload.parse? text = some payload) (hsdl : payload.sdl? = some definitions) :
    Loads disk base pointer definitions :=
  .introspection hlocal h.read h.extension hpayload hsdl

theorem HoldsJson.refuses {base : FilePath} {pointer : String}
    (h : HoldsJson disk (base.join pointer) text) (hlocal : isRemote pointer = false)
    (hpayload : Payload.parse? text = some payload) (hsdl : payload.sdl? = none) :
    Refuses disk base pointer (.emptyIntrospection (base.join pointer)) [base.join pointer] :=
  .emptyIntrospection hlocal h.read h.extension hpayload hsdl

theorem HoldsJson.exists_fileName (h : HoldsJson disk path text) :
    ∃ name, path.fileName? = some name := by
  obtain ⟨name, hname, -⟩ := Option.bind_eq_some_iff.mp h.extension
  exact ⟨name, hname⟩

theorem HoldsJson.fileName {tree : FileTree} {home : FileTree.Place} {name : String}
    (h : HoldsJson (tree.access home) path text) (hname : path.fileName? = some name) :
    HoldsJson (tree.access home) ((directoryOf path).join name) text where
  read := read_fileName hname h.read
  extension := (extension?_fileName hname).trans h.extension

/-- What a project makes of an answer in its only file. -/
theorem ProjectHoldsJson.discovers {file : FilePath} (h : ProjectHoldsJson disk start file text)
    (hpayload : Payload.parse? text = some payload) :
    (discoverSchema disk start).run =
      match payload.sdl? with
      | none => .error (.emptyIntrospection file)
      | some definitions => schemaOfDefinitions definitions := by
  cases h with
  | mk hproject hpointer hpaths hlocal hholds =>
    cases hsdl : payload.sdl? with
    | none =>
      exact discoverSchema_of_refuses hproject hpointer hpaths (hholds.refuses hlocal hpayload hsdl)
    | some definitions =>
      exact discoverSchema_of_loads hproject hpointer hpaths (hholds.loads hlocal hpayload hsdl)

/-- What is made of an answer in a single file. -/
theorem HoldsJson.schemaOfFile {tree : FileTree} {home : FileTree.Place} {name : String}
    (h : HoldsJson (tree.access home) path text) (hname : path.fileName? = some name)
    (hpayload : Payload.parse? text = some payload) :
    (schemaOfFile (tree.access home) path).run =
      match payload.sdl? with
      | none => .error (.emptyIntrospection ((directoryOf path).join name))
      | some definitions => schemaOfDefinitions definitions := by
  have hlocal := isRemote_of_not_mem (FileTree.moves_fileName hname).2.2.1
  cases hsdl : payload.sdl? with
  | none => exact schemaOfFile_of_refuses hname ((h.fileName hname).refuses hlocal hpayload hsdl)
  | some definitions =>
    exact schemaOfFile_of_loads hname ((h.fileName hname).loads hlocal hpayload hsdl)

/-- A whole response is read as the data in it. -/
theorem ofSpelled?_wrapped {members : Members} {value : Spelled}
    (hdata : members.at? "data" = some value) (h : Payload.ofSpelled? value = some payload)
    (hbare : payload.isResponse = false) :
    Payload.ofSpelled? (.object members) = some ⟨true, payload.schema⟩ := by
  unfold Payload.ofSpelled? at h
  cases hresponse : response value with
  | some schema =>
    rw [hresponse] at h
    cases h
    cases hbare
  | none =>
    rw [hresponse] at h
    obtain ⟨schema, hschema, rfl⟩ := Option.map_eq_some_iff.mp h
    have hwhole : response (.object members) = some schema := by
      show (members.at? "data").bind data = some schema
      rw [hdata, Option.bind_some, hschema]
    rw [Payload.ofSpelled?, hwhole]

end Answers

/-! ## 4. Mocks from an answer -/

section Mocks

variable {document : Document} {operation : Operation} {options : Options} {calls : Calls}

/-- What comes of a document with the schema that was acquired for it. -/
def mockOf (document : Document) (options : Options) (calls : Calls)
    (acquired : Except ProjectError SchemaSource) : Except Failure Json × Calls :=
  Id.run (generate document (pure acquired) options calls)

/-- Nothing is acquired for an operation that is not found. -/
theorem generate_of_not_found {m : Type → Type} [Monad m] {failure : Failure}
    (h : findOperation document options.operation = .error failure)
    (acquire : m (Except ProjectError SchemaSource)) :
    generate document acquire options calls = pure (.error failure, calls) := by
  rw [generate, h]

/-- A source counts for the schema that it builds. -/
theorem mockOf_congr {source other : SchemaSource} (h : source.schema = other.schema) :
    mockOf document options calls (.ok source) = mockOf document options calls (.ok other) := by
  have hload (rules : Rules) : source.load rules = other.load rules := by
    rw [SchemaSource.load, SchemaSource.load, h]
  have hprepare (operation : Operation) : prepare document operation source options.rules =
      prepare document operation other options.rules := by
    rw [prepare, prepare, hload]
  unfold mockOf generate
  cases findOperation document options.operation with
  | error failure => rfl
  | ok operation =>
    show mockOperation document operation source options calls =
      mockOperation document operation other options calls
    rw [mockOperation, mockOperation, hprepare]

theorem mockOf_of_invalid {source : SchemaSource} {causes : List Diagnostic}
    (hoperation : findOperation document options.operation = .ok operation)
    (h : source.schema = .error causes) :
    mockOf document options calls (.ok source) = (.error (.invalidSchema causes), calls) := by
  unfold mockOf generate
  rw [hoperation]
  show mockOperation document operation source options calls = _
  rw [mockOperation, prepare, SchemaSource.load, h]
  rfl

theorem mockOf_of_error {error : ProjectError}
    (hoperation : findOperation document options.operation = .ok operation) :
    mockOf document options calls (.error error) = (.error (.noSchema error), calls) := by
  unfold mockOf generate
  rw [hoperation]
  rfl

end Mocks

open Introspection in
/-- **All ways to hand over an answer agree.** Let a JSON text be the answer to an introspection
query, and let it stand in a file and in the only file of a project. Whatever is asked for:

* An operation that is not found is the failure before any schema is acquired.
* Without a `__schema`, the answer itself is no valid schema, and the file and the project complain
  about an empty answer.
* With one, its definitions are printed. If they build, the schema of the file, that of the project,
  the definitions and the answer have one and the same outcome. If not, the answer and the
  definitions are no valid schema, and the file and the project complain about invalid definitions.
* A text that holds the answer as the `data` of a response stands for the same in all these ways. -/
theorem introspected_sources {tree : FileTree} {home : FileTree.Place} {path start file : FilePath}
    {text : String} {payload : Payload} (hpayload : Payload.parse? text = some payload)
    (hfile : HoldsJson (tree.access home) path text)
    (hproject : ProjectHoldsJson (tree.access home) start file text) (document : Document)
    (options : Options) (calls : Calls) :
    (∀ failure, findOperation document options.operation = .error failure →
      ∀ {m : Type → Type} [Monad m] (acquire : m (Except ProjectError SchemaSource)),
        generate document acquire options calls = pure (.error failure, calls)) ∧
    (payload.schema = none → payload.sdl? = none ∧
      (∃ name, path.fileName? = some name ∧ (schemaOfFile (tree.access home) path).run =
        .error (.emptyIntrospection ((directoryOf path).join name))) ∧
      ∀ operation, findOperation document options.operation = .ok operation →
        mockOf document options calls (.ok (.introspection payload)) =
          (.error (.invalidSchema [.noIntrospection]), calls) ∧
        mockOf document options calls ((discoverSchema (tree.access home) start).run.map .built) =
          (.error (.noSchema (.emptyIntrospection file)), calls)) ∧
    (∀ entry, payload.schema = some entry → ∃ sdl, payload.sdl? = some sdl ∧
      (∀ schema, TypeSystem.parse sdl = .ok schema →
        (schemaOfFile (tree.access home) path).run = .ok schema ∧
        mockOf document options calls (.ok (.definitions sdl)) =
          mockOf document options calls (.ok (.introspection payload)) ∧
        mockOf document options calls (.ok (.built schema)) =
          mockOf document options calls (.ok (.introspection payload)) ∧
        mockOf document options calls ((discoverSchema (tree.access home) start).run.map .built) =
          mockOf document options calls (.ok (.introspection payload))) ∧
      ∀ causes, TypeSystem.parse sdl = .error causes →
        (schemaOfFile (tree.access home) path).run =
          .error (.invalidDefinitions (Diagnostic.lines causes)) ∧
        ∀ operation, findOperation document options.operation = .ok operation →
          mockOf document options calls (.ok (.introspection payload)) =
            (.error (.invalidSchema causes), calls) ∧
          mockOf document options calls (.ok (.definitions sdl)) =
            (.error (.invalidSchema causes), calls) ∧
          mockOf document options calls
              ((discoverSchema (tree.access home) start).run.map .built) =
            (.error (.noSchema (.invalidDefinitions (Diagnostic.lines causes))), calls)) ∧
    ∀ wrapped value members, Spelled.parse? text = some value → payload.isResponse = false →
      Spelled.parse? wrapped = some (.object members) → Members.at? members "data" = some value →
      ∃ whole, Payload.parse? wrapped = some whole ∧ whole.sdl? = payload.sdl? ∧
        mockOf document options calls (.ok (.introspection whole)) =
          mockOf document options calls (.ok (.introspection payload)) ∧
        ∀ file : FilePath, file.extension? = some "json" →
          definitionsOf file wrapped = definitionsOf file text := by
  obtain ⟨name, hname⟩ := hfile.exists_fileName
  have hloaded := hfile.schemaOfFile hname hpayload
  have hdiscovered := hproject.discovers hpayload
  refine ⟨fun failure h => generate_of_not_found h, fun hnone => ?_, fun entry hentry => ?_, ?_⟩
  · have hsdl : payload.sdl? = none := by rw [Payload.sdl?, hnone, Option.map_none]
    rw [hsdl] at hloaded hdiscovered
    refine ⟨hsdl, ⟨name, hname, hloaded⟩, fun operation hoperation => ⟨?_, ?_⟩⟩
    · refine mockOf_of_invalid hoperation ?_
      rw [SchemaSource.schema, TypeSystem.ofPayload, hsdl]
    · rw [hdiscovered]
      exact mockOf_of_error hoperation
  · have hsdl : payload.sdl? = some entry.render := by rw [Payload.sdl?, hentry, Option.map_some]
    have hanswer : (SchemaSource.introspection payload).schema = TypeSystem.parse entry.render := by
      rw [SchemaSource.schema, TypeSystem.ofPayload, hsdl]
    rw [hsdl] at hloaded hdiscovered
    refine ⟨entry.render, hsdl, fun schema hschema => ?_, fun causes hcauses => ?_⟩
    · have hbuilt : mockOf document options calls (.ok (.built schema)) =
          mockOf document options calls (.ok (.introspection payload)) :=
        mockOf_congr (by rw [hanswer, hschema, SchemaSource.schema])
      have hmade : schemaOfDefinitions entry.render = .ok schema := by
        rw [schemaOfDefinitions, hschema]
        rfl
      refine ⟨hloaded.trans hmade, mockOf_congr hanswer.symm, hbuilt, ?_⟩
      rw [hdiscovered.trans hmade]
      exact hbuilt
    · have hrefused : schemaOfDefinitions entry.render =
          .error (.invalidDefinitions (Diagnostic.lines causes)) := by
        rw [schemaOfDefinitions, hcauses]
        rfl
      refine ⟨hloaded.trans hrefused, fun operation hoperation => ⟨?_, ?_, ?_⟩⟩
      · exact mockOf_of_invalid hoperation (hanswer.trans hcauses)
      · exact mockOf_of_invalid hoperation hcauses
      · rw [hdiscovered.trans hrefused]
        exact mockOf_of_error hoperation
  · intro wrapped value members hvalue hbare hwrapped hdata
    have hread : Payload.ofSpelled? value = some payload := by
      rwa [Payload.parse?, hvalue, Option.bind_some] at hpayload
    have hwhole : Payload.parse? wrapped = some ⟨true, payload.schema⟩ := by
      rw [Payload.parse?, hwrapped, Option.bind_some, ofSpelled?_wrapped hdata hread hbare]
    refine ⟨_, hwhole, rfl, mockOf_congr rfl, fun file hextension => ?_⟩
    rw [definitionsOf, definitionsOf, if_pos hextension, if_pos hextension, hwhole, hpayload]
    rfl

/-- The answer of a server with one type. -/
def storedAnswer : String :=
  "\x7b\"__schema\":\x7b\"queryType\":\x7b\"name\":\"Q\"\x7d,\"types\":[\x7b\"kind\":\"OBJECT\"," ++
    "\"name\":\"Q\",\"fields\":[\x7b\"name\":\"id\",\"type\":\x7b\"name\":\"ID\"\x7d\x7d]\x7d]\x7d\x7d"

/-- A project around this answer. -/
def storedProject : FileTree :=
  .directory [(".graphqlrc", .file "schema: schema.json".toUTF8.toList),
    ("schema.json", .file storedAnswer.toUTF8.toList), ("src", .directory [])]

def storedDisk : FileAccess Id := storedProject.access storedProject.rootPlace

theorem storedAnswer_holds : HoldsJson storedDisk "schema.json" storedAnswer :=
  ⟨by decide +kernel, by decide +kernel⟩

theorem storedProject_holds : ProjectHoldsJson storedDisk "src" "schema.json" storedAnswer := by
  have hclosest : IsClosest storedDisk "src" ".graphqlrc" :=
    find?_configurationPlaces_eq_some_iff.mp (by decide +kernel)
  have hread : Id.run (storedDisk.read ".graphqlrc") = .ok "schema: schema.json" := by
    decide +kernel
  have hparse : Configuration.parse "schema: schema.json" =
      .ok ⟨some (.one "schema.json"), []⟩ := by decide +kernel
  exact .mk ⟨hclosest, _, hread, hparse⟩ (.own rfl) rfl (by decide) storedAnswer_holds

open Introspection in
/-- Four mocks of one query. -/
theorem introspected_sources_stored :
    ∃ payload sdl schema document, Payload.parse? storedAnswer = some payload ∧
      Document.parse "\x7b id \x7d" = .ok document ∧
      (schemaOfFile storedDisk "schema.json").run = .ok schema ∧
      mockOf document .standard [] (.ok (.definitions sdl)) =
        mockOf document .standard [] (.ok (.introspection payload)) ∧
      mockOf document .standard [] (.ok (.built schema)) =
        mockOf document .standard [] (.ok (.introspection payload)) ∧
      mockOf document .standard [] ((discoverSchema storedDisk "src").run.map .built) =
        mockOf document .standard [] (.ok (.introspection payload)) := by
  have hprinted : ((Payload.parse? storedAnswer).bind (·.sdl?)).any
      (TypeSystem.parse · |>.toBool) = true := by decide +kernel
  obtain ⟨sdl, hsdl, hbuilt⟩ := (Option.any_eq_true _ _).mp hprinted
  obtain ⟨payload, hpayload, hsome⟩ := Option.bind_eq_some_iff.mp hsdl
  obtain ⟨entry, hentry, -⟩ := Option.map_eq_some_iff.mp hsome
  have hquery : (Document.parse "\x7b id \x7d").toBool = true := by decide +kernel
  cases hdocument : Document.parse "\x7b id \x7d" with
  | error error =>
    rw [hdocument] at hquery
    cases hquery
  | ok document =>
    obtain ⟨-, -, hwith, -⟩ :=
      introspected_sources hpayload storedAnswer_holds storedProject_holds document .standard []
    obtain ⟨again, hagain, hbuilds, -⟩ := hwith entry hentry
    cases hsome.symm.trans hagain
    cases hparse : TypeSystem.parse sdl with
    | error causes =>
      rw [hparse] at hbuilt
      cases hbuilt
    | ok schema =>
      obtain ⟨hloaded, hagree⟩ := hbuilds schema hparse
      exact ⟨payload, sdl, schema, document, hpayload, rfl, hloaded, hagree⟩

end MockGraph
