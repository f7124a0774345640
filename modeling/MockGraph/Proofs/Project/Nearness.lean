import MockGraph.Proofs.Files.Addresses
import MockGraph.Proofs.Project.Discovery
import Mathlib.Data.List.Chain
import Mathlib.Data.List.Find
import Mathlib.Data.List.Infix

/-!
# `Proofs/Project/Nearness`: the closest directory with a configuration

The search for a configuration goes along the ancestors of a path, and ancestors are a matter of its
text. Here they are brought into the tree: each of them leads to a directory (`searched`), and the
search ends in the first of these that holds a configuration (`takenFrom_searched`).

So the configuration is taken from the closest directory around the start exactly if the first
configured directory is the same on both ways, the one of the text and the one up the tree
(`findsClosest_iff`). It is so if the text does not leave the way up the tree and goes on to the
root (`find?_outwards`). A `..` leaves it, since the directory before it is a child of the one after
it. A relative path ends in the directory from which it is followed.
-/

set_option autoImplicit false

namespace MockGraph

/-! ## 1. Ways to the root -/

section Ways

variable {α : Type} {p : List α → Bool} {top directory : List α} {way : List (List α)}

/-- The first hit among the tails of a list is the longest one. -/
theorem find?_tails_eq_some_iff :
    top.tails.find? p = some directory ↔
      directory <:+ top ∧ p directory = true ∧
        ∀ nearer, nearer <:+ top → directory.length < nearer.length → p nearer = false := by
  induction top with
  | nil =>
    simp only [List.tails, List.find?_singleton, List.suffix_nil]
    constructor
    · intro h
      split at h
      · next hp =>
        cases h
        exact ⟨rfl, hp, fun nearer hnil hlt => by simp [hnil] at hlt⟩
      · cases h
    · rintro ⟨rfl, hp, -⟩
      rw [if_pos hp]
  | cons a top ih =>
    rw [List.tails_cons]
    cases hp : p (a :: top) with
    | true =>
      rw [List.find?_cons_of_pos hp, Option.some.injEq]
      constructor
      · rintro rfl
        refine ⟨List.suffix_rfl, hp, fun nearer hnearer hlt => ?_⟩
        exact absurd hnearer.length_le (by omega)
      · rintro ⟨hsuffix, -, hfirst⟩
        by_contra hne
        have hlt : directory.length < (a :: top).length :=
          lt_of_le_of_ne hsuffix.length_le fun heq => hne (hsuffix.eq_of_length heq).symm
        rw [hfirst _ List.suffix_rfl hlt] at hp
        cases hp
    | false =>
      rw [List.find?_cons_of_neg (by simp [hp]), ih]
      constructor
      · rintro ⟨hsuffix, hd, hfirst⟩
        refine ⟨List.suffix_cons_iff.mpr (.inr hsuffix), hd, fun nearer hnearer hlt => ?_⟩
        rcases List.suffix_cons_iff.mp hnearer with rfl | hnearer
        · exact hp
        · exact hfirst nearer hnearer hlt
      · rintro ⟨hsuffix, hd, hfirst⟩
        rcases List.suffix_cons_iff.mp hsuffix with rfl | hsuffix
        · rw [hp] at hd
          cases hd
        · exact ⟨hsuffix, hd, fun nearer hnearer hlt =>
            hfirst nearer (List.suffix_cons_iff.mpr (.inr hnearer)) hlt⟩

/-- A way that stays among the tails of a list, skips none of them on the way down and comes to the
empty one has the same first hit as the tails themselves. Some tails may be on it twice. -/
theorem find?_outwards (hhead : way.head? = some top) (hsuffix : ∀ on ∈ way, on <:+ top)
    (hchain : way.IsChain fun inner outer => inner.length ≤ outer.length + 1) (hend : [] ∈ way) :
    way.find? p = top.tails.find? p := by
  -- The induction goes along the way. What is longer than the tail reached so far has no hit.
  suffices h : ∀ low, way.head? = some low →
      (∀ nearer, nearer <:+ top → low.length < nearer.length → p nearer = false) →
      way.find? p = top.tails.find? p by
    exact h top hhead fun nearer hnearer hlt => absurd hnearer.length_le (by omega)
  clear hhead
  induction way with
  | nil => cases hend
  | cons low rest ih =>
    intro _ hlow hbefore
    cases hlow
    obtain ⟨hsub, hrest⟩ := List.forall_mem_cons.mp hsuffix
    obtain ⟨hfirst, hchain⟩ := List.isChain_cons.mp hchain
    cases hp : p low with
    | true =>
      rw [List.find?_cons_of_pos hp]
      exact (find?_tails_eq_some_iff.mpr ⟨hsub, hp, hbefore⟩).symm
    | false =>
      rw [List.find?_cons_of_neg (by simp [hp])]
      have hlonger : ∀ nearer, nearer <:+ top → low.length ≤ nearer.length → p nearer = false := by
        intro nearer hnearer hle
        rcases hle.lt_or_eq with hlt | heq
        · exact hbefore nearer hnearer hlt
        · have hsame : low = nearer :=
            (List.suffix_of_suffix_length_le hsub hnearer hle).eq_of_length heq
          rw [← hsame, hp]
      by_cases hmore : [] ∈ rest
      · obtain ⟨next, hnext⟩ := Option.isSome_iff_exists.mp
          (List.isSome_head?.mpr (List.ne_nil_of_mem hmore))
        have hstep := hfirst next hnext
        exact ih hrest hchain hmore next hnext fun nearer hnearer hlt =>
          hlonger nearer hnearer (by omega)
      · -- This was the last time that the way comes to the empty tail, so there is no hit at all.
        have hlast : low = [] := ((List.mem_cons.mp hend).resolve_right hmore).symm
        have hnone : ∀ on, on <:+ top → ¬p on = true := fun on hon => by
          simp [hlonger on hon (by simp [hlast])]
        rw [List.find?_eq_none.mpr fun on hon => hnone on (hrest on hon)]
        exact (List.find?_eq_none.mpr fun on hon => hnone on ((List.mem_tails on top).mp hon)).symm

end Ways

/-! ## 2. Directories on the way -/

namespace FileTree

/-- What a name must be to name an entry of a directory. -/
structure IsEntryName (name : String) : Prop where
  slash : '/' ∉ name.toList
  nul : '\x00' ∉ name.toList
  stays : staysPut name = false
  up : name ≠ ".."
  short : name.utf8ByteSize ≤ nameLimit

/-- Whether there is a file at an address. -/
def isFileAt (tree : FileTree) (address : Address) : Bool :=
  match tree.at? address with
  | some (.file _) => true
  | _ => false

/-- The name of the configuration file that a directory holds, the preferred one of several. -/
def configurationName? (tree : FileTree) (directory : Address) : Option String :=
  configurationNames.find? fun name => tree.isFileAt (name :: directory)

/-- Whether a directory holds a configuration file. -/
def isConfigured (tree : FileTree) (directory : Address) : Bool :=
  (tree.configurationName? directory).isSome

/-- A path leads to a directory. -/
def LeadsInto (tree : FileTree) (home : Place) (path : FilePath) : Prop :=
  '\x00' ∉ path.toList ∧
    ∃ place, tree.locate home path = .ok place ∧ place.node.isDirectory = true

section Directories

variable {tree : FileTree} {home : Place} {here : Address} {path directory : FilePath}
  {name : String} {entries : List (String × FileTree)}

theorem leadsInto_of_resolve (h : tree.resolve home path = .ok (.directory entries)) :
    tree.LeadsInto home path := by
  obtain ⟨hnul, place, hplace, hnode⟩ := locate_of_resolve h
  exact ⟨hnul, place, hplace, by rw [hnode, isDirectory]⟩

/-- All ancestors of a path to a directory lead to directories. -/
theorem LeadsInto.ancestors (h : tree.LeadsInto home path) :
    ∀ ancestor ∈ path.ancestors, tree.LeadsInto home ancestor := by
  refine FilePath.forall_ancestors (fun path parent hparent h => ?_) h
  obtain ⟨hnul, place, hplace, hdirectory⟩ := h
  exact ⟨not_mem_parent (by decide) (by decide) hparent hnul,
    isDirectory_parent hparent hplace hdirectory⟩

/-- A name that is joined to a path names a file if there is one at the address of both. -/
theorem isFile_join (hhome : IsAt tree here home) (h : tree.LeadsInto home directory)
    (hname : IsEntryName name) :
    Id.run ((tree.access home).isFile (directory.join name)) =
      tree.isFileAt (name :: addressOf here directory) := by
  obtain ⟨hnul, place, hplace, hdirectory⟩ := h
  have hne : name ≠ "" := by
    rintro rfl
    exact Bool.noConfusion hname.stays
  have hresolve := resolve_join hplace hdirectory hnul hname.slash hname.nul hne
  rw [Place.step_of_child? hdirectory hname.stays hname.up hname.short] at hresolve
  have hat : tree.at? (name :: addressOf here directory) = place.node.child? name := by
    rw [at?, (hhome.locate hplace).at?, Option.bind_some]
  simp only [access, isFileAt, hresolve, hat]
  cases place.node.child? name with
  | none => rfl
  | some node => cases node <;> rfl

theorem isEntryName_of_mem (h : name ∈ configurationNames) : IsEntryName name := by
  have hall : ∀ name ∈ configurationNames, '/' ∉ name.toList ∧ '\x00' ∉ name.toList ∧
      staysPut name = false ∧ name ≠ ".." ∧ name.utf8ByteSize ≤ nameLimit := by decide +kernel
  obtain ⟨hslash, hnul, hstays, hup, hshort⟩ := hall name h
  exact ⟨hslash, hnul, hstays, hup, hshort⟩

end Directories

end FileTree

/-! ## 3. Where the search ends -/

open FileTree

/-- The directories that are searched from a start, in their order: where its ancestors lead. -/
def searched (here : Address) (start : FilePath) : List Address :=
  start.ancestors.map (addressOf here)

/-- The search from a start ends in a directory, with the preferred one of its configuration files;
or it ends in none, and nothing is found. -/
inductive TakenFrom (tree : FileTree) (home : Place) (here : Address) (start : FilePath) :
    Option Address → Prop where
  | nowhere (h : (findConfiguration (tree.access home) start).run = .error (.notFound start)) :
      TakenFrom tree home here start none
  | inside {directory : Address} {name : String} {path : FilePath}
      (h : (findConfiguration (tree.access home) start).run = .ok path)
      (hname : tree.configurationName? directory = some name)
      (hpath : addressOf here path = name :: directory) :
      TakenFrom tree home here start (some directory)

/-- The configuration is taken from the directory to which a path leads, or from one of its parents
in the tree, and from the closest of them that has one. -/
structure FindsClosest (tree : FileTree) (home : Place) (here : Address) (start : FilePath) :
    Prop where
  around : ∀ path, (findConfiguration (tree.access home) start).run = .ok path →
    ∃ directory, directory <:+ addressOf here start ∧
      TakenFrom tree home here start (some directory)
  closest : ∀ directory, directory <:+ addressOf here start → tree.isConfigured directory = true →
    (∀ nearer, nearer <:+ addressOf here start → directory.length < nearer.length →
      tree.isConfigured nearer = false) →
    TakenFrom tree home here start (some directory)

section Search

variable {tree : FileTree} {home : Place} {here : Address} {start : FilePath}

/-- In a directory the file of the first name that names one is found. -/
theorem find?_join (hhome : IsAt tree here home) {directory : FilePath}
    (h : tree.LeadsInto home directory) :
    (configurationNames.map directory.join).find? (tree.access home).isFile =
      (tree.configurationName? (addressOf here directory)).map directory.join := by
  rw [List.find?_map, configurationName?]
  congr 1
  refine List.find?_congr fun name hname => ?_
  exact isFile_join hhome h (isEntryName_of_mem hname)

/-- Along several directories it is found in the first one that is configured. -/
theorem find?_flatMap_join (hhome : IsAt tree here home) {directories : List FilePath}
    (h : ∀ directory ∈ directories, tree.LeadsInto home directory) :
    (directories.flatMap fun directory => configurationNames.map directory.join).find?
        (tree.access home).isFile =
      (directories.find? (tree.isConfigured ∘ addressOf here)).bind
        fun directory =>
          (tree.configurationName? (addressOf here directory)).map directory.join := by
  induction directories with
  | nil => rfl
  | cons directory directories ih =>
    obtain ⟨hdirectory, hrest⟩ := List.forall_mem_cons.mp h
    rw [List.flatMap_cons, List.find?_append, find?_join hhome hdirectory, ih hrest]
    cases hname : tree.configurationName? (addressOf here directory) with
    | none => rw [List.find?_cons_of_neg (by simp [isConfigured, hname]), Option.map_none,
        Option.none_or]
    | some name => rw [List.find?_cons_of_pos (by simp [isConfigured, hname]), Option.bind_some,
        hname, Option.map_some, Option.some_or]

theorem addressOf_configuration (directory : FilePath) {name : String}
    (h : tree.configurationName? (addressOf here directory) = some name) :
    addressOf here (directory.join name) = name :: addressOf here directory := by
  have hname := isEntryName_of_mem (List.mem_of_find?_eq_some h)
  exact addressOf_join here directory hname.slash hname.stays hname.up

/-- The search ends in the first directory that is searched and configured. -/
theorem takenFrom_searched (hhome : IsAt tree here home) (h : tree.LeadsInto home start) :
    TakenFrom tree home here start ((searched here start).find? tree.isConfigured) := by
  have hfind := find?_flatMap_join hhome h.ancestors
  rw [← configurationPlaces] at hfind
  rw [searched, List.find?_map]
  cases hfirst : start.ancestors.find? (tree.isConfigured ∘ addressOf here) with
  | none =>
    rw [hfirst, Option.bind_none] at hfind
    apply TakenFrom.nowhere
    apply findConfiguration_of_hasNoConfiguration
    exact find?_configurationPlaces_eq_none_iff.mp hfind
  | some directory =>
    rw [hfirst, Option.bind_some] at hfind
    have hconfigured : (tree.isConfigured ∘ addressOf here) directory = true :=
      List.find?_some hfirst
    obtain ⟨name, hname⟩ := Option.isSome_iff_exists.mp hconfigured
    rw [hname, Option.map_some] at hfind
    refine .inside (findConfiguration_of_isClosest ?_) hname (addressOf_configuration _ hname)
    exact find?_configurationPlaces_eq_some_iff.mp hfind

/-- The search ends in one way only. -/
theorem TakenFrom.unique {one other : Option Address} (h : TakenFrom tree home here start one)
    (h' : TakenFrom tree home here start other) : one = other := by
  cases h with
  | nowhere h =>
    cases h' with
    | nowhere => rfl
    | inside h' =>
      rw [h] at h'
      cases h'
  | inside h hname hpath =>
    cases h' with
    | nowhere h' =>
      rw [h] at h'
      cases h'
    | inside h' hname' hpath' =>
      rw [h] at h'
      cases h'
      rw [hpath] at hpath'
      rw [(List.cons.inj hpath').2]

theorem TakenFrom.isConfigured {directory : Address}
    (h : TakenFrom tree home here start (some directory)) : tree.isConfigured directory = true := by
  cases h with
  | inside _ hname _ => exact Option.isSome_iff_exists.mpr ⟨_, hname⟩

theorem TakenFrom.findsClosest
    (h : TakenFrom tree home here start ((addressOf here start).tails.find? tree.isConfigured)) :
    FindsClosest tree home here start := by
  constructor
  · intro path hpath
    cases hfirst : (addressOf here start).tails.find? tree.isConfigured with
    | none =>
      rw [hfirst] at h
      cases h with
      | nowhere h =>
        rw [h] at hpath
        cases hpath
    | some directory =>
      exact ⟨directory, (find?_tails_eq_some_iff.mp hfirst).1, hfirst ▸ h⟩
  · intro directory hsuffix hconfigured hnearer
    rwa [find?_tails_eq_some_iff.mpr ⟨hsuffix, hconfigured, hnearer⟩] at h

/-- The configuration is the closest one exactly if the ways of the text and of the tree have the
same first configured directory. -/
theorem findsClosest_iff (hhome : IsAt tree here home) (h : tree.LeadsInto home start) :
    FindsClosest tree home here start ↔
      (searched here start).find? tree.isConfigured =
        (addressOf here start).tails.find? tree.isConfigured := by
  have htaken := takenFrom_searched hhome h
  refine ⟨fun hclosest => ?_, fun heq => (heq ▸ htaken).findsClosest⟩
  -- There is one outcome of the search, and the law names another one if the ways differ.
  cases hfirst : (addressOf here start).tails.find? tree.isConfigured with
  | some directory =>
    obtain ⟨hsuffix, hconfigured, hnearer⟩ := find?_tails_eq_some_iff.mp hfirst
    exact htaken.unique (hclosest.closest directory hsuffix hconfigured hnearer)
  | none =>
    cases hsearched : (searched here start).find? tree.isConfigured with
    | none => rfl
    | some found =>
      rw [hsearched] at htaken
      cases htaken with
      | inside hpath hname haddress =>
        obtain ⟨directory, hsuffix, hin⟩ := hclosest.around _ hpath
        have hnone := List.find?_eq_none.mp hfirst directory ((List.mem_tails _ _).mpr hsuffix)
        exact absurd hin.isConfigured hnone

end Search

/-! ## 4. Ways out of a directory -/

section Outwards

variable {here : Address} {start path : FilePath}

theorem searched_of_parent {parent : FilePath} (h : path.parent? = some parent) :
    searched here path = addressOf here path :: searched here parent := by
  rw [searched, FilePath.ancestors_of_parent h, List.map_cons, searched]

theorem searched_of_parent_none (h : path.parent? = none) :
    searched here path = [addressOf here path] := by
  rw [searched, FilePath.ancestors_of_parent_none h, List.map_singleton]

theorem head?_searched (path : FilePath) :
    (searched here path).head? = some (addressOf here path) := by
  cases hparent : path.parent? with
  | none => rw [searched_of_parent_none hparent, List.head?_cons]
  | some parent => rw [searched_of_parent hparent, List.head?_cons]

/-- The search goes outwards by one directory at most at a time. -/
theorem isChain_searched (path : FilePath) :
    (searched here path).IsChain fun inner outer => inner.length ≤ outer.length + 1 := by
  induction path using FilePath.induction_outwards with
  | step path ih =>
    cases hparent : path.parent? with
    | none =>
      rw [searched_of_parent_none hparent]
      exact List.isChain_singleton _
    | some parent =>
      rw [searched_of_parent hparent]
      refine List.isChain_cons.mpr ⟨fun next hnext => ?_, ih parent hparent⟩
      rw [head?_searched, Option.mem_some_iff] at hnext
      rw [← hnext]
      rcases addressOf_parent here hparent with heq | ⟨-, heq⟩
      · rw [heq]
        omega
      · rw [heq, Address.step]
        split
        · rw [List.length_tail]
          omega
        · rw [List.length_cons]

/-- A path without a `..` has nothing but its parents in the tree above it. -/
theorem suffix_of_mem_searched (hup : ".." ∉ moves path) :
    ∀ directory ∈ searched here path, directory <:+ addressOf here path := by
  induction path using FilePath.induction_outwards with
  | step path ih =>
    cases hparent : path.parent? with
    | none =>
      rw [searched_of_parent_none hparent]
      exact List.forall_mem_singleton.mpr List.suffix_rfl
    | some parent =>
      have hsub : ".." ∉ moves parent := fun hmem =>
        hup (moves_parent hparent ▸ List.mem_append_left _ hmem)
      have hinside : addressOf here parent <:+ addressOf here path := by
        rcases addressOf_parent here hparent with heq | ⟨hlast, heq⟩
        · rw [heq]
        · have hdown : lastPart path ≠ ".." := fun hdots => hup (hdots ▸ hlast)
          rw [heq, Address.step, if_neg hdown]
          exact List.suffix_cons _ _
      rw [searched_of_parent hparent]
      refine List.forall_mem_cons.mpr ⟨List.suffix_rfl, fun directory hmem => ?_⟩
      exact (ih parent hparent hsub directory hmem).trans hinside

variable (here) in
/-- The search comes to the directory that a path starts from. -/
theorem origin_mem_searched (path : FilePath) :
    (if path.isAbsolute then [] else here) ∈ searched here path := by
  induction path using FilePath.induction_outwards with
  | step path ih =>
    cases hparent : path.parent? with
    | none =>
      obtain ⟨hrest, hhead⟩ := parent?_eq_none_iff.mp hparent
      have hmoves : moves path = [] := by
        rw [moves_eq_parts, hrest, hhead]
        rfl
      rw [searched_of_parent_none hparent, addressOf, hmoves]
      exact List.mem_singleton_self _
    | some parent =>
      rw [searched_of_parent hparent, ← isAbsolute_parent hparent]
      exact List.mem_cons_of_mem _ (ih parent hparent)

end Outwards

/-! ## 5. The closest configuration -/

/-- **The search is as close as its text.** Let a path lead to a directory. The search ends in the
first of the directories of its ancestors that holds a configuration, with the preferred file there.
This is the closest one around the directory in the tree exactly if both ways have the same first
configured directory: in particular if every directory that is searched is around the start, and the
root is one of them; and so for each path without `..` that is followed from the root. -/
theorem findConfiguration_nearness {tree : FileTree} {home : Place} {here : Address}
    {start : FilePath} {entries : List (String × FileTree)} (hhome : IsAt tree here home)
    (hstart : tree.resolve home start = .ok (.directory entries)) :
    tree.at? (addressOf here start) = some (.directory entries) ∧
    TakenFrom tree home here start ((searched here start).find? tree.isConfigured) ∧
    (FindsClosest tree home here start ↔
      (searched here start).find? tree.isConfigured =
        (addressOf here start).tails.find? tree.isConfigured) ∧
    ((∀ directory ∈ searched here start, directory <:+ addressOf here start) →
      [] ∈ searched here start → FindsClosest tree home here start) ∧
    (".." ∉ moves start → start.isAbsolute = true ∨ here = [] →
      FindsClosest tree home here start) := by
  have hleads := leadsInto_of_resolve hstart
  have hclosest : (∀ directory ∈ searched here start, directory <:+ addressOf here start) →
      [] ∈ searched here start → FindsClosest tree home here start := by
    intro hsuffix hroot
    rw [findsClosest_iff hhome hleads]
    exact find?_outwards (head?_searched start) hsuffix (isChain_searched start) hroot
  refine ⟨?_, takenFrom_searched hhome hleads, findsClosest_iff hhome hleads, hclosest, ?_⟩
  · obtain ⟨-, place, hplace, hnode⟩ := locate_of_resolve hstart
    rw [(hhome.locate hplace).at?, hnode]
  · intro hup hroot
    refine hclosest (suffix_of_mem_searched hup) ?_
    have hmem := origin_mem_searched here start
    rcases hroot with habsolute | rfl
    · rwa [if_pos habsolute] at hmem
    · rwa [ite_self] at hmem

/-- An application without a configuration, and one in a directory below it. -/
def unconfiguredApp : List (String × FileTree) :=
  [("src", .directory [(".graphqlrc.yml", .file []), (".graphqlrc", .directory []),
    ("view", .directory [])])]

/-- The application in a project with a configuration at the root. -/
def layeredProject : FileTree :=
  .directory [(".graphqlrc", .file []), ("app", .directory unconfiguredApp)]

def layeredApp : Place := ⟨.directory unconfiguredApp, [layeredProject]⟩

theorem findConfiguration_nearness_layered :
    FindsClosest layeredProject layeredProject.rootPlace [] "app/./src/view" ∧
    TakenFrom layeredProject layeredProject.rootPlace [] "app/./src/view"
      (some ["src", "app"]) := by
  have hstart : layeredProject.resolve layeredProject.rootPlace "app/./src/view" =
      .ok (.directory []) := rfl
  obtain ⟨-, htaken, -, -, hfinds⟩ := findConfiguration_nearness .root hstart
  refine ⟨hfinds (by decide +kernel) (.inr rfl), ?_⟩
  have hfirst : (searched [] "app/./src/view").find? layeredProject.isConfigured =
      some ["src", "app"] := by decide +kernel
  rwa [hfirst] at htaken

/-- On a way down and up again, what is below the start is found. From inside the tree, the search
does not come to the root. -/
theorem not_findsClosest_layered :
    layeredProject.resolve layeredProject.rootPlace "/app/src/.." =
      .ok (.directory unconfiguredApp) ∧
    (findConfiguration (layeredProject.access layeredProject.rootPlace) "/app/src/..").run =
      .ok "/app/src/.graphqlrc.yml" ∧
    ¬FindsClosest layeredProject layeredProject.rootPlace [] "/app/src/.." ∧
    layeredProject.resolve layeredApp "." = .ok (.directory unconfiguredApp) ∧
    (findConfiguration (layeredProject.access layeredApp) ".").run = .error (.notFound ".") ∧
    ¬FindsClosest layeredProject layeredApp ["app"] "." := by
  have hdetour : layeredProject.resolve layeredProject.rootPlace "/app/src/.." =
      .ok (.directory unconfiguredApp) := rfl
  have hpoint : layeredProject.resolve layeredApp "." = .ok (.directory unconfiguredApp) := rfl
  refine ⟨hdetour, ?_, ?_, hpoint, ?_, ?_⟩
  · apply findConfiguration_of_isClosest
    exact find?_configurationPlaces_eq_some_iff.mp (by decide +kernel)
  · rw [findsClosest_iff .root (leadsInto_of_resolve hdetour)]
    decide +kernel
  · apply findConfiguration_of_hasNoConfiguration
    exact find?_configurationPlaces_eq_none_iff.mp (by decide +kernel)
  · have happ : IsAt layeredProject ["app"] layeredApp := .inside .root rfl
    rw [findsClosest_iff happ (leadsInto_of_resolve hpoint)]
    decide +kernel

end MockGraph
