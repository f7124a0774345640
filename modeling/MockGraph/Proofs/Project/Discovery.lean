import MockGraph.Project.Discovery
import MockGraph.Proofs.Files.Ancestors
import Mathlib.Data.List.Basic
import Mathlib.Data.List.Forall2

/-!
# `Proofs/Project/Discovery`: which files make the schema of a project

The places for a configuration file form a table: a row for each directory from the start outwards,
a column for each name. What is found is the first file of the table, row by row (`IsClosest`), and it
is taken for good: if it is of no use, the search does not go on.

`Discovers` says what comes of a whole project and which files are read for it, one constructor for
each way to end. The theorem about it holds over every disk, and in every monad in which reads are
noted, so that the list of the files that are read is part of what is proved.

A disk does not change while a project is looked up; what happens otherwise is not said here.
-/

set_option autoImplicit false

namespace MockGraph

/-! ## 1. The closest configuration file -/

section Table

variable {α β γ : Type} {p : γ → Bool} {c : γ}

/-- The first hit of a row has no hit before it. -/
theorem find?_row {columns : List β} {place : β → γ} :
    (columns.map place).find? p = some c ↔
      ∃ j : Nat, (columns[j]?).map place = some c ∧ p c = true ∧
        ∀ (j' : Nat) (other : γ), j' < j → (columns[j']?).map place = some other →
          p other = false := by
  simp only [← List.getElem?_map]
  rw [List.find?_eq_some_iff_getElem]
  constructor
  · rintro ⟨hp, j, hj, rfl, hbefore⟩
    refine ⟨j, List.getElem?_eq_getElem hj, hp, fun j' other hlt hother => ?_⟩
    obtain ⟨_, rfl⟩ := List.getElem?_eq_some_iff.mp hother
    simpa using hbefore j' hlt
  · rintro ⟨j, hc, hp, hbefore⟩
    obtain ⟨hj, rfl⟩ := List.getElem?_eq_some_iff.mp hc
    refine ⟨hp, j, hj, rfl, fun j' hlt => ?_⟩
    rw [hbefore j' _ hlt (List.getElem?_eq_getElem (by omega)), Bool.not_false]

/-- The first hit of a table that is searched row by row has no hit in the rows before it, nor
before it in its own row. -/
theorem find?_table {rows : List α} {columns : List β} {place : α → β → γ} :
    (rows.flatMap fun a => columns.map (place a)).find? p = some c ↔
      ∃ i j : Nat, (rows[i]?.bind fun a => (columns[j]?).map (place a)) = some c ∧ p c = true ∧
        ∀ (i' j' : Nat) (other : γ),
          (rows[i']?.bind fun a => (columns[j']?).map (place a)) = some other →
          i' < i ∨ i' = i ∧ j' < j → p other = false := by
  rw [List.find?_flatMap, List.findSome?_eq_some_iff]
  constructor
  · rintro ⟨before, a, after, rfl, hrow, hbefore⟩
    obtain ⟨j, hc, hp, hleft⟩ := find?_row.mp hrow
    refine ⟨before.length, j, by simpa using hc, hp, ?_⟩
    rintro i' j' other hother (hlt | ⟨rfl, hlt⟩)
    · rw [List.getElem?_append_left hlt, List.getElem?_eq_getElem hlt, Option.bind_some] at hother
      have hnone := List.find?_eq_none.mp (hbefore _ (List.getElem_mem hlt)) other
      rw [← List.getElem?_map] at hother
      simpa using hnone (List.mem_of_getElem? hother)
    · exact hleft j' other hlt (by simpa using hother)
  · rintro ⟨i, j, hc, hp, hfirst⟩
    obtain ⟨a, hrow, hcell⟩ := Option.bind_eq_some_iff.mp hc
    obtain ⟨hi, rfl⟩ := List.getElem?_eq_some_iff.mp hrow
    refine ⟨rows.take i, rows[i], rows.drop (i + 1), ?_, ?_, ?_⟩
    · rw [← List.drop_eq_getElem_cons hi, List.take_append_drop]
    · refine find?_row.mpr ⟨j, hcell, hp, fun j' other hlt hother => ?_⟩
      exact hfirst i j' other (by rw [hrow]; exact hother) (.inr ⟨rfl, hlt⟩)
    · intro earlier hearlier
      obtain ⟨i', hi', rfl⟩ := List.mem_take_iff_getElem.mp hearlier
      refine List.find?_eq_none.mpr fun other hother => ?_
      obtain ⟨j', hj'⟩ := List.mem_iff_getElem?.mp hother
      rw [List.getElem?_map] at hj'
      have hlt : i' < i := by omega
      have hother : (rows[i']?.bind fun a => (columns[j']?).map (place a)) = some other := by
        rw [List.getElem?_eq_getElem (by omega), Option.bind_some, hj']
      simpa using hfirst i' j' other hother (.inl hlt)

end Table

/-- The place for a configuration file `level` directories above a start directory, under the name
of number `rank`. -/
def configurationPlace? (start : FilePath) (level rank : Nat) : Option FilePath :=
  (start.ancestor? level).bind fun directory => (configurationNames[rank]?).map directory.join

/-- A file at such a place, with no file at any place in a nearer directory, nor under a preferred
name in its own directory. -/
def IsClosest (disk : FileAccess Id) (start path : FilePath) : Prop :=
  ∃ level rank, configurationPlace? start level rank = some path ∧ disk.isFile path = true ∧
    ∀ level' rank' other, configurationPlace? start level' rank' = some other →
      level' < level ∨ level' = level ∧ rank' < rank → disk.isFile other = false

/-- No place for a configuration file has one. -/
def HasNoConfiguration (disk : FileAccess Id) (start : FilePath) : Prop :=
  ∀ level rank path, configurationPlace? start level rank = some path → disk.isFile path = false

section Closest

variable {disk : FileAccess Id} {start path : FilePath}

theorem find?_configurationPlaces_eq_some_iff :
    (configurationPlaces start).find? disk.isFile = some path ↔ IsClosest disk start path := by
  unfold configurationPlaces IsClosest configurationPlace?
  simp only [← FilePath.ancestors_getElem?]
  exact find?_table

theorem find?_configurationPlaces_eq_none_iff :
    (configurationPlaces start).find? disk.isFile = none ↔ HasNoConfiguration disk start := by
  unfold configurationPlaces HasNoConfiguration configurationPlace?
  simp only [List.find?_eq_none, List.mem_flatMap, ← FilePath.ancestors_getElem?]
  constructor
  · intro h level rank path hplace
    obtain ⟨directory, hdirectory, hname⟩ := Option.bind_eq_some_iff.mp hplace
    rw [← List.getElem?_map] at hname
    simpa using h path ⟨directory, List.mem_of_getElem? hdirectory, List.mem_of_getElem? hname⟩
  · rintro h path ⟨directory, hdirectory, hname⟩
    obtain ⟨level, hlevel⟩ := List.mem_iff_getElem?.mp hdirectory
    obtain ⟨rank, hrank⟩ := List.mem_iff_getElem?.mp hname
    rw [List.getElem?_map] at hrank
    have hplace : (start.ancestors[level]?.bind fun directory =>
        (configurationNames[rank]?).map directory.join) = some path := by
      rw [hlevel, Option.bind_some, hrank]
    simpa using h level rank path hplace

variable (disk start) in
theorem closest_or_none :
    (∃ path, IsClosest disk start path) ∨ HasNoConfiguration disk start := by
  cases hfind : (configurationPlaces start).find? disk.isFile with
  | none => exact .inr (find?_configurationPlaces_eq_none_iff.mp hfind)
  | some path => exact .inl ⟨path, find?_configurationPlaces_eq_some_iff.mp hfind⟩

end Closest

/-! ## 2. What comes of a project -/

section Outcomes

variable (disk : FileAccess Id) (base : FilePath)

/-- A pointer loads: it names a file, whose text holds definitions as they are, or as the answer to
an introspection query. -/
inductive Loads : String → String → Prop where
  | definitions {pointer text : String} (hlocal : isRemote pointer = false)
      (hread : disk.read (base.join pointer) = .ok text)
      (hextension : (base.join pointer).extension? ≠ some "json") : Loads pointer text
  | introspection {pointer text definitions : String} {payload : Introspection.Payload}
      (hlocal : isRemote pointer = false) (hread : disk.read (base.join pointer) = .ok text)
      (hextension : (base.join pointer).extension? = some "json")
      (hpayload : Introspection.Payload.parse? text = some payload)
      (hsdl : payload.sdl? = some definitions) : Loads pointer definitions

/-- A pointer is refused, and with which error; the list holds the file that was read for it. -/
inductive Refuses : String → ProjectError → List FilePath → Prop where
  | remote {pointer : String} (hremote : isRemote pointer = true) :
      Refuses pointer (.remoteSchema pointer) []
  | unreadable {pointer : String} {error : ReadError} (hlocal : isRemote pointer = false)
      (hread : disk.read (base.join pointer) = .error error) :
      Refuses pointer (.unreadable (base.join pointer) error) [base.join pointer]
  | notIntrospection {pointer text : String} (hlocal : isRemote pointer = false)
      (hread : disk.read (base.join pointer) = .ok text)
      (hextension : (base.join pointer).extension? = some "json")
      (hpayload : Introspection.Payload.parse? text = none) :
      Refuses pointer (.notIntrospection (base.join pointer) "unexpected value") [base.join pointer]
  | emptyIntrospection {pointer text : String} {payload : Introspection.Payload}
      (hlocal : isRemote pointer = false) (hread : disk.read (base.join pointer) = .ok text)
      (hextension : (base.join pointer).extension? = some "json")
      (hpayload : Introspection.Payload.parse? text = some payload) (hsdl : payload.sdl? = none) :
      Refuses pointer (.emptyIntrospection (base.join pointer)) [base.join pointer]

/-- The pointer of a configuration is its own, else that of its default project. -/
inductive Configuration.PointsTo (configuration : Configuration) : SchemaPointer → Prop where
  | own {pointer : SchemaPointer} (h : configuration.schema = some pointer) :
      PointsTo configuration pointer
  | ofDefault {project : Subproject} {pointer : SchemaPointer} (hown : configuration.schema = none)
      (hproject : configuration.projects.lookup "default" = some project)
      (h : project.schema = some pointer) : PointsTo configuration pointer

variable (start : FilePath)

/-- A start directory belongs to the project of the file `path`, which holds `configuration`. -/
structure BelongsTo (path : FilePath) (configuration : Configuration) : Prop where
  closest : IsClosest disk start path
  holds : ∃ text, disk.read path = .ok text ∧ Configuration.parse text = .ok configuration

/-- The configuration of a start directory points to files, and all of them load. -/
def EveryPointerLoads : Prop :=
  ∃ path configuration pointer, BelongsTo disk start path configuration ∧
    configuration.PointsTo pointer ∧
    ∀ file ∈ pointer.paths, ∃ text, Loads disk (directoryOf path) file text

/-- What comes of the project of a start directory, and the files that are read, in their order. -/
inductive Discovers : Except ProjectError TypeSystem → List FilePath → Prop where
  | notFound (h : HasNoConfiguration disk start) : Discovers (.error (.notFound start)) []
  | unreadable {path : FilePath} {error : ReadError} (hclosest : IsClosest disk start path)
      (hread : disk.read path = .error error) : Discovers (.error (.unreadable path error)) [path]
  | malformed {path : FilePath} {text : String} {error : Yaml.Error}
      (hclosest : IsClosest disk start path) (hread : disk.read path = .ok text)
      (hparse : Configuration.parse text = .error error) :
      Discovers (.error (.malformed path error.message)) [path]
  | noPointer {path : FilePath} {configuration : Configuration}
      (hproject : BelongsTo disk start path configuration)
      (hpointer : ∀ pointer, ¬ configuration.PointsTo pointer) :
      Discovers (.error (.missingSchema path)) [path]
  | noFiles {path : FilePath} {configuration : Configuration} {pointer : SchemaPointer}
      (hproject : BelongsTo disk start path configuration)
      (hpointer : configuration.PointsTo pointer) (hpaths : pointer.paths = []) :
      Discovers (.error (.missingSchema (directoryOf path))) [path]
  | refused {path : FilePath} {configuration : Configuration} {pointer : SchemaPointer}
      {before after : List String} {bad : String} {error : ProjectError} {reads : List FilePath}
      (hproject : BelongsTo disk start path configuration)
      (hpointer : configuration.PointsTo pointer)
      (hpaths : pointer.paths = before ++ bad :: after)
      (hbefore : ∀ good ∈ before, ∃ text, Loads disk (directoryOf path) good text)
      (hbad : Refuses disk (directoryOf path) bad error reads) :
      Discovers (.error error) (path :: (before.map (directoryOf path).join ++ reads))
  | invalidDefinitions {path : FilePath} {configuration : Configuration} {pointer : SchemaPointer}
      {texts : List String} {causes : List Diagnostic}
      (hproject : BelongsTo disk start path configuration)
      (hpointer : configuration.PointsTo pointer) (hpaths : pointer.paths ≠ [])
      (hloads : List.Forall₂ (Loads disk (directoryOf path)) pointer.paths texts)
      (hschema : TypeSystem.parseAll texts = .error causes) :
      Discovers (.error (.invalidDefinitions (Diagnostic.lines causes)))
        (path :: pointer.paths.map (directoryOf path).join)
  | found {path : FilePath} {configuration : Configuration} {pointer : SchemaPointer}
      {texts : List String} {schema : TypeSystem}
      (hproject : BelongsTo disk start path configuration)
      (hpointer : configuration.PointsTo pointer) (hpaths : pointer.paths ≠ [])
      (hloads : List.Forall₂ (Loads disk (directoryOf path)) pointer.paths texts)
      (hschema : TypeSystem.parseAll texts = .ok schema) :
      Discovers (.ok schema) (path :: pointer.paths.map (directoryOf path).join)

end Outcomes

section Cases

variable {disk : FileAccess Id} {base start : FilePath}

theorem schemaPointer?_eq_some_iff {configuration : Configuration} {pointer : SchemaPointer} :
    configuration.schemaPointer? = some pointer ↔ configuration.PointsTo pointer := by
  unfold Configuration.schemaPointer?
  constructor
  · intro h
    rcases Option.or_eq_some_iff.mp h with hown | ⟨hown, hdefault⟩
    · exact .own hown
    · obtain ⟨project, hproject, hpointer⟩ := Option.bind_eq_some_iff.mp hdefault
      exact .ofDefault hown hproject hpointer
  · rintro (hown | ⟨hown, hproject, hpointer⟩)
    · rw [hown, Option.some_or]
    · rw [hown, Option.none_or, Configuration.defaultProject, hproject, Option.bind_some, hpointer]

theorem loads_or_refuses (disk : FileAccess Id) (base : FilePath) (pointer : String) :
    (∃ text, Loads disk base pointer text) ∨
      ∃ error reads, Refuses disk base pointer error reads := by
  by_cases hremote : isRemote pointer = true
  · exact .inr ⟨_, _, .remote hremote⟩
  · have hlocal : isRemote pointer = false := by simpa using hremote
    cases hread : disk.read (base.join pointer) with
    | error error => exact .inr ⟨_, _, .unreadable hlocal hread⟩
    | ok text =>
      by_cases hextension : (base.join pointer).extension? = some "json"
      · cases hpayload : Introspection.Payload.parse? text with
        | none => exact .inr ⟨_, _, .notIntrospection hlocal hread hextension hpayload⟩
        | some payload =>
          cases hsdl : payload.sdl? with
          | none => exact .inr ⟨_, _, .emptyIntrospection hlocal hread hextension hpayload hsdl⟩
          | some definitions =>
            exact .inl ⟨definitions, .introspection hlocal hread hextension hpayload hsdl⟩
      · exact .inl ⟨text, .definitions hlocal hread hextension⟩

theorem exists_loads {files texts : List String} (h : List.Forall₂ (Loads disk base) files texts) :
    ∀ file ∈ files, ∃ text, Loads disk base file text := by
  induction h with
  | nil => exact List.forall_mem_nil _
  | cons hfile _ ih => exact List.forall_mem_cons.mpr ⟨⟨_, hfile⟩, ih⟩

/-- All pointers load, or there is a first one that is refused. -/
theorem load_or_refused (disk : FileAccess Id) (base : FilePath) (pointers : List String) :
    (∃ texts, List.Forall₂ (Loads disk base) pointers texts) ∨
      ∃ before bad after error reads, pointers = before ++ bad :: after ∧
        (∀ good ∈ before, ∃ text, Loads disk base good text) ∧
          Refuses disk base bad error reads := by
  induction pointers with
  | nil => exact .inl ⟨[], .nil⟩
  | cons pointer rest ih =>
    rcases loads_or_refuses disk base pointer with ⟨text, hloads⟩ | ⟨error, reads, hbad⟩
    · rcases ih with ⟨texts, hrest⟩ | ⟨before, bad, after, error, reads, rfl, hbefore, hbad⟩
      · exact .inl ⟨text :: texts, .cons hloads hrest⟩
      · exact .inr ⟨pointer :: before, bad, after, error, reads, rfl,
          List.forall_mem_cons.mpr ⟨⟨text, hloads⟩, hbefore⟩, hbad⟩
    · exact .inr ⟨[], pointer, rest, error, reads, rfl, List.forall_mem_nil _, hbad⟩

/-- Something comes of every project. -/
theorem exists_discovers (disk : FileAccess Id) (start : FilePath) :
    ∃ result reads, Discovers disk start result reads := by
  rcases closest_or_none disk start with ⟨path, hclosest⟩ | hnone
  · cases hread : disk.read path with
    | error error => exact ⟨_, _, .unreadable hclosest hread⟩
    | ok text =>
      cases hparse : Configuration.parse text with
      | error error => exact ⟨_, _, .malformed hclosest hread hparse⟩
      | ok configuration =>
        have hproject : BelongsTo disk start path configuration := ⟨hclosest, text, hread, hparse⟩
        cases hpointer : configuration.schemaPointer? with
        | none =>
          refine ⟨_, _, .noPointer hproject fun pointer hp => ?_⟩
          rw [schemaPointer?_eq_some_iff.mpr hp] at hpointer
          cases hpointer
        | some pointer =>
          have hp := schemaPointer?_eq_some_iff.mp hpointer
          by_cases hpaths : pointer.paths = []
          · exact ⟨_, _, .noFiles hproject hp hpaths⟩
          · rcases load_or_refused disk (directoryOf path) pointer.paths with
              ⟨texts, hloads⟩ | ⟨before, bad, after, error, reads, hsplit, hbefore, hbad⟩
            · cases hschema : TypeSystem.parseAll texts with
              | error causes => exact ⟨_, _, .invalidDefinitions hproject hp hpaths hloads hschema⟩
              | ok schema => exact ⟨_, _, .found hproject hp hpaths hloads hschema⟩
            · exact ⟨_, _, .refused hproject hp hsplit hbefore hbad⟩
  · exact ⟨_, _, .notFound hnone⟩

end Cases

/-! ## 3. Reads that are noted -/

section Noting

variable {m : Type → Type} [Monad m]

/-- Access to a disk in another monad, in which `note` is done for each file that is read. -/
def FileAccess.noting (disk : FileAccess Id) (note : FilePath → m Unit) : FileAccess m where
  isFile path := pure (disk.isFile path)
  read path := do
    note path
    return disk.read path

/-- A computation does nothing but read some files, in this order, and ends with a result. -/
def Loading.Ends {α : Type} (note : FilePath → m Unit) (load : Loading m α)
    (result : Except ProjectError α) (reads : List FilePath) : Prop :=
  load.run = do
    reads.forM note
    return result

variable [LawfulMonad m] {α β : Type} {note : FilePath → m Unit} {load : Loading m α}
  {next : α → Loading m β} {a : α} {error : ProjectError} {reads reads' : List FilePath}

namespace Loading

theorem Ends.pure (a : α) : Ends note (pure a) (.ok a) [] := by
  simp [Ends]

theorem Ends.throw (error : ProjectError) :
    Ends note (throw error : Loading m α) (.error error) [] := by
  simp [Ends]

theorem Ends.bind_ok {result : Except ProjectError β} (h : Ends note load (.ok a) reads)
    (hn : Ends note (next a) result reads') :
    Ends note (load >>= next) result (reads ++ reads') := by
  unfold Ends at h hn ⊢
  rw [ExceptT.run_bind, h]
  simp [hn]

/-- Nothing is read any more at the end. -/
theorem Ends.bind_end {result : Except ProjectError β} (h : Ends note load (.ok a) reads)
    (hn : Ends note (next a) result []) : Ends note (load >>= next) result reads := by
  simpa only [List.append_nil] using h.bind_ok hn

theorem Ends.bind_error (h : Ends note load (.error error) reads) :
    Ends note (load >>= next) (.error error) reads := by
  unfold Ends at h ⊢
  rw [ExceptT.run_bind, h]
  simp

end Loading

/-! ### The steps of discovery -/

variable {disk : FileAccess Id} {base start path : FilePath}

theorem ends_read :
    Loading.Ends note (liftM ((disk.noting note).read path)) (.ok (disk.read path)) [path] := by
  have hlift : (liftM ((disk.noting note).read path) : Loading m (Except ReadError String)).run =
      Except.ok <$> (disk.noting note).read path := ExceptT.run_lift _
  rw [Loading.Ends, hlift]
  simp [FileAccess.noting]

theorem ends_readFile_ok {text : String} (h : disk.read path = .ok text) :
    (readFile (disk.noting note) path).Ends note (.ok text) [path] := by
  refine ends_read.bind_end ?_
  rw [h]
  exact .pure text

theorem ends_readFile_error {error : ReadError} (h : disk.read path = .error error) :
    (readFile (disk.noting note) path).Ends note (.error (.unreadable path error)) [path] := by
  refine ends_read.bind_end ?_
  rw [h]
  exact .throw _

theorem ends_findConfiguration_ok (h : IsClosest disk start path) :
    (findConfiguration (disk.noting note) start).Ends note (.ok path) [] := by
  have hfind := find?_configurationPlaces_eq_some_iff.mpr h
  simp [Loading.Ends, findConfiguration, FileAccess.noting, hfind]

theorem ends_findConfiguration_error (h : HasNoConfiguration disk start) :
    (findConfiguration (disk.noting note) start).Ends note (.error (.notFound start)) [] := by
  have hfind := find?_configurationPlaces_eq_none_iff.mpr h
  simp [Loading.Ends, findConfiguration, FileAccess.noting, hfind]

theorem ends_loadDefinitions_ok {pointer text : String} (h : Loads disk base pointer text) :
    (loadDefinitions (disk.noting note) base pointer).Ends note (.ok text) [base.join pointer] := by
  unfold loadDefinitions
  cases h with
  | definitions hlocal hread hextension =>
    rw [hlocal]
    refine (ends_readFile_ok hread).bind_end ?_
    rw [definitionsOf, if_neg hextension]
    exact .pure text
  | introspection hlocal hread hextension hpayload hsdl =>
    rw [hlocal]
    refine (ends_readFile_ok hread).bind_end ?_
    simp only [definitionsOf, if_pos hextension, hpayload, hsdl]
    exact .pure text

theorem ends_loadDefinitions_error {pointer : String}
    (h : Refuses disk base pointer error reads) :
    (loadDefinitions (disk.noting note) base pointer).Ends note (.error error) reads := by
  unfold loadDefinitions
  cases h with
  | remote hremote =>
    rw [hremote]
    exact (Loading.Ends.throw _).bind_error
  | unreadable hlocal hread =>
    rw [hlocal]
    exact (ends_readFile_error hread).bind_error
  | notIntrospection hlocal hread hextension hpayload =>
    rw [hlocal]
    refine (ends_readFile_ok hread).bind_end ?_
    simp only [definitionsOf, if_pos hextension, hpayload]
    exact .throw _
  | emptyIntrospection hlocal hread hextension hpayload hsdl =>
    rw [hlocal]
    refine (ends_readFile_ok hread).bind_end ?_
    simp only [definitionsOf, if_pos hextension, hpayload, hsdl]
    exact .throw _

/-- Pointers that load are read in their order. -/
theorem ends_mapM_ok {pointers texts : List String}
    (h : List.Forall₂ (Loads disk base) pointers texts) :
    Loading.Ends note (pointers.mapM (loadDefinitions (disk.noting note) base)) (.ok texts)
      (pointers.map base.join) := by
  induction h with
  | nil => exact .pure []
  | cons hpointer _ ih =>
    rw [List.mapM_cons]
    refine (ends_loadDefinitions_ok hpointer).bind_ok ?_
    exact ih.bind_end (.pure _)

/-- Nothing is read after the first pointer that is refused. -/
theorem ends_mapM_error {before after : List String} {bad : String}
    (hbefore : ∀ good ∈ before, ∃ text, Loads disk base good text)
    (hbad : Refuses disk base bad error reads) :
    Loading.Ends note ((before ++ bad :: after).mapM (loadDefinitions (disk.noting note) base))
      (.error error) (before.map base.join ++ reads) := by
  induction before with
  | nil =>
    rw [List.nil_append, List.mapM_cons]
    exact (ends_loadDefinitions_error hbad).bind_error
  | cons good before ih =>
    obtain ⟨⟨text, hgood⟩, hbefore⟩ := List.forall_mem_cons.mp hbefore
    rw [List.cons_append, List.mapM_cons]
    refine (ends_loadDefinitions_ok hgood).bind_ok ?_
    exact (ih hbefore).bind_error

theorem ends_readConfiguration_ok {text : String} {configuration : Configuration}
    (hread : disk.read path = .ok text) (hparse : Configuration.parse text = .ok configuration) :
    (readConfiguration (disk.noting note) path).Ends note (.ok configuration) [path] := by
  refine (ends_readFile_ok hread).bind_end ?_
  rw [hparse]
  exact .pure configuration

theorem ends_readConfiguration_error {text : String} {error : Yaml.Error}
    (hread : disk.read path = .ok text) (hparse : Configuration.parse text = .error error) :
    (readConfiguration (disk.noting note) path).Ends note (.error (.malformed path error.message))
      [path] := by
  refine (ends_readFile_ok hread).bind_end ?_
  rw [hparse]
  exact .throw _

section Schema

variable {pointers texts : List String}

theorem ends_loadSchema_of_loads (hpointers : pointers ≠ [])
    (hloads : List.Forall₂ (Loads disk base) pointers texts) :
    (loadSchema (disk.noting note) base pointers).Ends note
      (match TypeSystem.parseAll texts with
      | .ok schema => .ok schema
      | .error causes => .error (.invalidDefinitions (Diagnostic.lines causes)))
      (pointers.map base.join) := by
  unfold loadSchema
  rw [List.isEmpty_eq_false_iff.mpr hpointers]
  refine (ends_mapM_ok hloads).bind_end ?_
  cases TypeSystem.parseAll texts with
  | error causes => exact .throw _
  | ok schema => exact .pure schema

theorem ends_loadSchema_of_refuses {before after : List String} {bad : String}
    (hbefore : ∀ good ∈ before, ∃ text, Loads disk base good text)
    (hbad : Refuses disk base bad error reads) :
    (loadSchema (disk.noting note) base (before ++ bad :: after)).Ends note (.error error)
      (before.map base.join ++ reads) := by
  unfold loadSchema
  rw [List.isEmpty_eq_false_iff.mpr (by simp)]
  exact (ends_mapM_error hbefore hbad).bind_error

theorem ends_loadSchema_nil :
    (loadSchema (disk.noting note) base []).Ends note (.error (.missingSchema base)) [] :=
  (Loading.Ends.throw _).bind_error

/-- The configuration is read first, then what its pointer names. -/
theorem BelongsTo.ends {configuration : Configuration} {pointer : SchemaPointer}
    {result : Except ProjectError TypeSystem} (hproject : BelongsTo disk start path configuration)
    (hpointer : configuration.PointsTo pointer)
    (h : (loadSchema (disk.noting note) (directoryOf path) pointer.paths).Ends note result reads) :
    (discoverSchema (disk.noting note) start).Ends note result (path :: reads) := by
  obtain ⟨text, hread, hparse⟩ := hproject.holds
  unfold discoverSchema
  refine (ends_findConfiguration_ok hproject.closest).bind_ok ?_
  refine (ends_readConfiguration_ok hread hparse).bind_ok ?_
  rw [schemaPointer?_eq_some_iff.mpr hpointer]
  exact h

end Schema

/-- Discovery does what `Discovers` says, and reads nothing else. -/
theorem Discovers.ends {result : Except ProjectError TypeSystem}
    (h : Discovers disk start result reads) :
    (discoverSchema (disk.noting note) start).Ends note result reads := by
  cases h with
  | notFound hnone => exact (ends_findConfiguration_error hnone).bind_error
  | unreadable hclosest hread =>
    refine (ends_findConfiguration_ok hclosest).bind_ok ?_
    exact ((ends_readFile_error hread).bind_error).bind_error
  | malformed hclosest hread hparse =>
    refine (ends_findConfiguration_ok hclosest).bind_ok ?_
    exact (ends_readConfiguration_error hread hparse).bind_error
  | @noPointer _ configuration hproject hpointer =>
    obtain ⟨text, hread, hparse⟩ := hproject.holds
    have hnone : configuration.schemaPointer? = none :=
      Option.eq_none_iff_forall_ne_some.mpr fun pointer h =>
        hpointer pointer (schemaPointer?_eq_some_iff.mp h)
    refine (ends_findConfiguration_ok hproject.closest).bind_ok ?_
    refine (ends_readConfiguration_ok hread hparse).bind_end ?_
    rw [hnone]
    exact .throw _
  | noFiles hproject hpointer hpaths =>
    refine hproject.ends hpointer ?_
    rw [hpaths]
    exact ends_loadSchema_nil
  | refused hproject hpointer hpaths hbefore hbad =>
    refine hproject.ends hpointer ?_
    rw [hpaths]
    exact ends_loadSchema_of_refuses hbefore hbad
  | invalidDefinitions hproject hpointer hpaths hloads hschema =>
    refine hproject.ends hpointer ?_
    simpa only [hschema] using ends_loadSchema_of_loads hpaths hloads
  | found hproject hpointer hpaths hloads hschema =>
    refine hproject.ends hpointer ?_
    simpa only [hschema] using ends_loadSchema_of_loads hpaths hloads

end Noting

/-! ## 4. Discovery -/

section Results

variable {disk : FileAccess Id} {start path : FilePath}

theorem Loading.ends_nothing {α : Type} {load : Loading Id α} {result : Except ProjectError α}
    {reads : List FilePath} (h : load.Ends (fun _ => pure ()) result reads) : load.run = result := h

theorem findConfiguration_of_isClosest (h : IsClosest disk start path) :
    (findConfiguration disk start).run = .ok path :=
  Loading.ends_nothing (ends_findConfiguration_ok h)

theorem findConfiguration_of_hasNoConfiguration (h : HasNoConfiguration disk start) :
    (findConfiguration disk start).run = .error (.notFound start) :=
  Loading.ends_nothing (ends_findConfiguration_error h)

theorem findConfiguration_eq_ok_iff :
    (findConfiguration disk start).run = .ok path ↔ IsClosest disk start path := by
  refine ⟨fun h => ?_, findConfiguration_of_isClosest⟩
  rcases closest_or_none disk start with ⟨found, hfound⟩ | hnone
  · rw [findConfiguration_of_isClosest hfound] at h
    cases h
    exact hfound
  · rw [findConfiguration_of_hasNoConfiguration hnone] at h
    cases h

theorem findConfiguration_eq_error_iff {error : ProjectError} :
    (findConfiguration disk start).run = .error error ↔
      error = .notFound start ∧ HasNoConfiguration disk start := by
  constructor
  · intro h
    rcases closest_or_none disk start with ⟨found, hfound⟩ | hnone
    · rw [findConfiguration_of_isClosest hfound] at h
      cases h
    · rw [findConfiguration_of_hasNoConfiguration hnone] at h
      cases h
      exact ⟨rfl, hnone⟩
  · rintro ⟨rfl, hnone⟩
    exact findConfiguration_of_hasNoConfiguration hnone

theorem Discovers.everyPointerLoads {result : Except ProjectError TypeSystem}
    {reads : List FilePath} (h : Discovers disk start result reads)
    (hresult : (∃ schema, result = .ok schema) ∨
      ∃ detail, result = .error (.invalidDefinitions detail)) : EveryPointerLoads disk start := by
  cases h with
  | invalidDefinitions hproject hpointer _ hloads _ | found hproject hpointer _ hloads _ =>
    exact ⟨_, _, _, hproject, hpointer, exists_loads hloads⟩
  | refused _ _ _ _ hbad => cases hbad <;> simp at hresult
  | _ => simp at hresult

end Results

/-- **The closest configuration decides, and the first bad pointer.** The configuration file is the
first file of the table of places, and `notFound` says that the table has none. Something comes of
each project as `Discovers` says, and no files are read but those it lists: in any monad, to discover
is to note these reads, in order, and to return the result. There is a schema, or a complaint about
definitions, only if every pointer of the configuration loads. -/
theorem discoverSchema_closest (disk : FileAccess Id) (start : FilePath) :
    (∀ path, (findConfiguration disk start).run = .ok path ↔ IsClosest disk start path) ∧
    (∀ error, (findConfiguration disk start).run = .error error ↔
      error = .notFound start ∧ HasNoConfiguration disk start) ∧
    (∃ result reads, Discovers disk start result reads) ∧
    ∀ result reads, Discovers disk start result reads →
      (discoverSchema disk start).run = result ∧
      (∀ {m : Type → Type} [Monad m] [LawfulMonad m] (note : FilePath → m Unit),
        (discoverSchema (disk.noting note) start).run = do
          reads.forM note
          return result) ∧
      ((∃ schema, result = .ok schema) ∨ (∃ detail, result = .error (.invalidDefinitions detail)) →
        EveryPointerLoads disk start) := by
  refine ⟨fun path => findConfiguration_eq_ok_iff, fun error => findConfiguration_eq_error_iff,
    exists_discovers disk start, fun result reads h => ⟨?_, ?_, h.everyPointerLoads⟩⟩
  · exact Loading.ends_nothing h.ends
  · intro m _ _ note
    exact h.ends

/-- A project inside another one. In the directory of the inner one stands a directory under the
preferred name, and a configuration that is written under a later name. -/
def nestedProject : FileTree :=
  .directory [(".graphqlrc", .file "schema: outer.graphql".toUTF8.toList),
    ("app", .directory [(".graphqlrc", .directory []),
      (".graphqlrc.yml", .file "schema: [users.graphql, teams.json, https://rest]".toUTF8.toList),
      (".graphqlrc.json", .file "schema: later.graphql".toUTF8.toList),
      ("users.graphql", .file "type User".toUTF8.toList),
      ("teams.json", .file "\x7b\x7d".toUTF8.toList)])]

def nestedDisk : FileAccess Id := nestedProject.access nestedProject.rootPlace

/-- Keeps the list of the files that are read. -/
def record (path : FilePath) : StateM (List FilePath) Unit := modify (· ++ [path])

theorem discovers_nested :
    Discovers nestedDisk "app/src" (.error (.emptyIntrospection "app/teams.json"))
      ["app/.graphqlrc.yml", "app/users.graphql", "app/teams.json"] := by
  have hclosest : IsClosest nestedDisk "app/src" "app/.graphqlrc.yml" :=
    find?_configurationPlaces_eq_some_iff.mp (by decide +kernel)
  have hread : Id.run (nestedDisk.read "app/.graphqlrc.yml") =
      .ok "schema: [users.graphql, teams.json, https://rest]" := by decide +kernel
  have hparse : Configuration.parse "schema: [users.graphql, teams.json, https://rest]" =
      .ok ⟨some (.many ["users.graphql", "teams.json", "https://rest"]), []⟩ := by decide +kernel
  have husers : Id.run (nestedDisk.read "app/users.graphql") = .ok "type User" := by decide +kernel
  have hteams : Id.run (nestedDisk.read "app/teams.json") = .ok "\x7b\x7d" := by decide +kernel
  have hempty : (Introspection.Payload.parse? "\x7b\x7d").isSome ∧
      (Introspection.Payload.parse? "\x7b\x7d").bind (·.sdl?) = none := by decide +kernel
  obtain ⟨payload, hpayload⟩ := Option.isSome_iff_exists.mp hempty.1
  have hsdl : payload.sdl? = none := by simpa [hpayload] using hempty.2
  have hpaths : (SchemaPointer.many ["users.graphql", "teams.json", "https://rest"]).paths =
      ["users.graphql"] ++ "teams.json" :: ["https://rest"] := rfl
  have hbefore : ∀ good ∈ ["users.graphql"],
      ∃ text, Loads nestedDisk (directoryOf "app/.graphqlrc.yml") good text :=
    List.forall_mem_singleton.mpr ⟨_, .definitions (by decide) husers (by decide)⟩
  have hbad : Refuses nestedDisk (directoryOf "app/.graphqlrc.yml") "teams.json"
      (.emptyIntrospection "app/teams.json") ["app/teams.json"] :=
    .emptyIntrospection (by decide) hteams (by decide) hpayload hsdl
  exact .refused ⟨hclosest, _, hread, hparse⟩ (.own rfl) hpaths hbefore hbad

theorem discoverSchema_closest_nested :
    (findConfiguration nestedDisk "app/src").run = .ok "app/.graphqlrc.yml" ∧
    ((discoverSchema (nestedDisk.noting record) "app/src").run.run []).2 =
      ["app/.graphqlrc.yml", "app/users.graphql", "app/teams.json"] ∧
    (discoverSchema nestedDisk "app/src").run = .error (.emptyIntrospection "app/teams.json") := by
  obtain ⟨hfound, -, -, hdiscover⟩ := discoverSchema_closest nestedDisk "app/src"
  obtain ⟨hresult, hreads, -⟩ := hdiscover _ _ discovers_nested
  refine ⟨(hfound _).mpr ?_, ?_, hresult⟩
  · exact find?_configurationPlaces_eq_some_iff.mp (by decide +kernel)
  · rw [hreads record]
    rfl

end MockGraph
