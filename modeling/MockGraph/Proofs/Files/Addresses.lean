import MockGraph.Files.Tree
import MockGraph.Proofs.Files.Ancestors

/-!
# `Proofs/Files/Addresses`: where a path leads

The address of a node is the way down to it from the root, the last name first, so the tail of an
address is that of the directory around it. `addressOf` reads off the text of a path where it leads,
and `IsAt.locate` says that this is where it leads in a tree.

What a path passes on its way are its parents by the text (`moves_parent`, `locate_parent`). They
are parents in the tree where the path goes down, but where it goes up by `..` they are below it. A
name that is joined to a path is looked up in the directory to which the path leads
(`resolve_join`).
-/

set_option autoImplicit false

namespace MockGraph.FileTree

/-! ## 1. Addresses -/

/-- The names on the way from the root to a node, the last one first. -/
abbrev Address := List String

/-- Where a component leads from a directory. The parent of the root is the root. -/
def Address.step (address : Address) (name : String) : Address :=
  if name = ".." then address.tail else name :: address

/-- Whether a component leads nowhere. -/
def staysPut (name : String) : Bool := name = "" || name = "."

/-- The components of a path that lead somewhere. -/
def moves (path : FilePath) : List String := (components path).filter fun name => !staysPut name

/-- The last component of a path. -/
def lastPart (path : FilePath) : String :=
  String.ofList (path.parts.rest.headD path.parts.head)

/-- Where a path leads from a directory, by its text. -/
def addressOf (home : Address) (path : FilePath) : Address :=
  (moves path).foldl Address.step (if path.isAbsolute then [] else home)

/-- The node at an address. -/
def at? (tree : FileTree) : Address → Option FileTree
  | [] => some tree
  | name :: outer => (tree.at? outer).bind (·.child? name)

/-- A place in a tree has an address. -/
inductive IsAt (tree : FileTree) : Address → Place → Prop where
  | root : IsAt tree [] tree.rootPlace
  | inside {outer : Address} {directory node : FileTree} {around : List FileTree} {name : String}
      (houter : IsAt tree outer ⟨directory, around⟩)
      (hchild : directory.child? name = some node) :
      IsAt tree (name :: outer) ⟨node, directory :: around⟩

section Places

variable {tree : FileTree} {address : Address} {place next : Place} {name : String}
  {names : List String}

theorem IsAt.at? (h : IsAt tree address place) : tree.at? address = some place.node := by
  induction h with
  | root => rfl
  | inside _ hchild ih => rw [FileTree.at?, ih, Option.bind_some, hchild]

/-! ## 2. Steps -/

theorem Place.isDirectory_of_step (h : place.step name = .ok next) :
    place.node.isDirectory = true := by
  by_contra hfile
  rw [Place.step, if_pos (by simpa using hfile)] at h
  cases h

theorem Place.step_of_staysPut (hdirectory : place.node.isDirectory = true)
    (hname : staysPut name = true) : place.step name = .ok place := by
  unfold staysPut at hname
  simp [Place.step, hdirectory, hname]

/-- A step from an address leads to the address that its name says. -/
theorem IsAt.step (h : IsAt tree address place) (hname : staysPut name = false)
    (hstep : place.step name = .ok next) : IsAt tree (Address.step address name) next := by
  have hdirectory := Place.isDirectory_of_step hstep
  unfold staysPut at hname
  simp only [Place.step, hdirectory, hname, Bool.not_true, Bool.false_eq_true, if_false] at hstep
  unfold Address.step
  split at hstep
  · next hup =>
    rw [if_pos hup]
    cases h with
    | root =>
      cases hstep
      exact .root
    | inside houter hchild =>
      cases hstep
      exact houter
  · next hup =>
    rw [if_neg hup]
    split at hstep
    · cases hstep
    · split at hstep
      · next node hchild =>
        cases hstep
        exact .inside h hchild
      · cases hstep

/-- A name that is no way up is looked up in the directory. -/
theorem Place.step_of_child? (hdirectory : place.node.isDirectory = true)
    (hname : staysPut name = false) (hup : name ≠ "..") (hshort : name.utf8ByteSize ≤ nameLimit) :
    (place.step name).map Place.node =
      match place.node.child? name with
      | some node => .ok node
      | none => .error .missing := by
  unfold staysPut at hname
  simp only [Place.step, hdirectory, hname, Bool.not_true, Bool.false_eq_true, if_false, if_neg hup,
    if_neg (Nat.not_lt.mpr hshort)]
  cases place.node.child? name <;> rfl

/-! ## 3. Ways -/

theorem Place.follow_cons (place : Place) (name : String) (names : List String) :
    place.follow (name :: names) = (place.step name).bind (·.follow names) := rfl

theorem Place.follow_cons_eq_ok :
    place.follow (name :: names) = .ok next ↔
      ∃ middle, place.step name = .ok middle ∧ middle.follow names = .ok next := by
  rw [follow_cons]
  cases place.step name with
  | error error => simp [Except.bind]
  | ok middle => simp [Except.bind]

theorem Place.follow_append_of_ok (h : place.follow names = .ok next) (more : List String) :
    place.follow (names ++ more) = next.follow more := by
  induction names generalizing place with
  | nil =>
    cases h
    rfl
  | cons name names ih =>
    obtain ⟨middle, hstep, hrest⟩ := follow_cons_eq_ok.mp h
    rw [List.cons_append, follow_cons, hstep]
    exact ih hrest

theorem Place.follow_snoc_eq_ok :
    place.follow (names ++ [name]) = .ok next ↔
      ∃ middle, place.follow names = .ok middle ∧ middle.step name = .ok next := by
  induction names generalizing place with
  | nil =>
    rw [List.nil_append, follow_cons_eq_ok]
    constructor
    · rintro ⟨middle, hstep, hrest⟩
      cases hrest
      exact ⟨place, rfl, hstep⟩
    · rintro ⟨middle, hrest, hstep⟩
      cases hrest
      exact ⟨next, hstep, rfl⟩
  | cons first names ih =>
    simp only [List.cons_append, follow_cons_eq_ok, ih]
    constructor
    · rintro ⟨second, hfirst, middle, hrest, hstep⟩
      exact ⟨middle, ⟨second, hfirst, hrest⟩, hstep⟩
    · rintro ⟨middle, ⟨second, hfirst, hrest⟩, hstep⟩
      exact ⟨second, hfirst, middle, hrest, hstep⟩

/-- Components that lead nowhere can be left out. -/
theorem Place.follow_moves (h : place.follow names = .ok next) :
    place.follow (names.filter fun name => !staysPut name) = .ok next := by
  induction names generalizing place with
  | nil => exact h
  | cons name names ih =>
    obtain ⟨middle, hstep, hrest⟩ := follow_cons_eq_ok.mp h
    cases hname : staysPut name with
    | true =>
      rw [step_of_staysPut (isDirectory_of_step hstep) hname] at hstep
      cases hstep
      rw [List.filter_cons_of_neg (by simp [hname])]
      exact ih hrest
    | false =>
      rw [List.filter_cons_of_pos (by simp [hname])]
      exact follow_cons_eq_ok.mpr ⟨middle, hstep, ih hrest⟩

/-- A way that ends in a directory starts in one. -/
theorem Place.isDirectory_of_follow (hnext : next.node.isDirectory = true)
    (h : place.follow names = .ok next) : place.node.isDirectory = true := by
  cases names with
  | nil =>
    cases h
    exact hnext
  | cons name names =>
    obtain ⟨middle, hstep, -⟩ := follow_cons_eq_ok.mp h
    exact isDirectory_of_step hstep

/-- They can be put in where a way ends in a directory. -/
theorem Place.follow_of_moves (hnext : next.node.isDirectory = true)
    (h : place.follow (names.filter fun name => !staysPut name) = .ok next) :
    place.follow names = .ok next := by
  induction names generalizing place with
  | nil => exact h
  | cons name names ih =>
    cases hname : staysPut name with
    | true =>
      rw [List.filter_cons_of_neg (by simp [hname])] at h
      have hstay := step_of_staysPut (isDirectory_of_follow hnext h) hname
      exact follow_cons_eq_ok.mpr ⟨place, hstay, ih h⟩
    | false =>
      rw [List.filter_cons_of_pos (by simp [hname])] at h
      obtain ⟨middle, hstep, hrest⟩ := follow_cons_eq_ok.mp h
      exact follow_cons_eq_ok.mpr ⟨middle, hstep, ih hrest⟩

theorem IsAt.follow (h : IsAt tree address place) (hnames : ∀ name ∈ names, staysPut name = false)
    (hfollow : place.follow names = .ok next) :
    IsAt tree (names.foldl Address.step address) next := by
  induction names generalizing address place with
  | nil =>
    cases hfollow
    exact h
  | cons name names ih =>
    obtain ⟨hname, hnames⟩ := List.forall_mem_cons.mp hnames
    obtain ⟨middle, hstep, hrest⟩ := Place.follow_cons_eq_ok.mp hfollow
    exact ih (h.step hname hstep) hnames hrest

end Places

/-! ## 4. The text of paths -/

section Texts

variable {path parent directory : FilePath} {name : String}

theorem staysPut_ofList (component : List Char) :
    staysPut (String.ofList component) = FilePath.isIdle component := by
  have hpoint : String.ofList component = String.ofList ['.'] ↔ component = ['.'] :=
    String.ofList_inj
  have hname : String.ofList ['.'] = "." := rfl
  rw [hname] at hpoint
  simp only [staysPut, FilePath.isIdle, String.ofList_eq_empty_iff, hpoint]

theorem moves_eq_map (path : FilePath) :
    moves path =
      ((Text.pieces '/' path.toList).filter fun piece => !FilePath.isIdle piece).map
        String.ofList := by
  rw [moves, components, List.filter_map]
  simp only [Function.comp_def, staysPut_ofList]

theorem filter_dropWhile_isIdle (components : List (List Char)) :
    (components.dropWhile FilePath.isIdle).filter (fun piece => !FilePath.isIdle piece) =
      components.filter fun piece => !FilePath.isIdle piece := by
  induction components with
  | nil => rfl
  | cons component components ih =>
    cases hidle : FilePath.isIdle component with
    | true => rw [List.dropWhile_cons_of_pos hidle, ih, List.filter_cons_of_neg (by simp [hidle])]
    | false => rw [List.dropWhile_cons_of_neg (by simp [hidle])]

/-- Nothing counts that `FilePath.parts` leaves out. -/
theorem moves_eq_parts (path : FilePath) :
    moves path = ((path.parts.head :: path.parts.rest.reverse).filter
      fun piece => !FilePath.isIdle piece).map String.ofList := by
  obtain ⟨head, rest, hpieces, -⟩ := FilePath.exists_pieces path
  rw [moves_eq_map, FilePath.parts_of_pieces hpieces, hpieces]
  simp only [List.filter_cons, List.filter_reverse, filter_dropWhile_isIdle, List.reverse_reverse]

/-- Above a path is everything but its last component. -/
theorem moves_parent (h : path.parent? = some parent) :
    moves path = moves parent ++ [lastPart path].filter fun name => !staysPut name := by
  have hlast : [lastPart path].filter (fun name => !staysPut name) =
      ([path.parts.rest.headD path.parts.head].filter fun piece => !FilePath.isIdle piece).map
        String.ofList := by
    rw [lastPart, ← List.map_singleton, List.filter_map]
    simp only [Function.comp_def, staysPut_ofList]
  rw [hlast, moves_eq_parts, moves_eq_parts parent, ← List.map_append]
  congr 1
  rcases FilePath.parts_parent h with ⟨hrest, -, hparent⟩ | ⟨last, above, hrest, hparent⟩
  · rw [hrest, hparent]
    rfl
  · rw [hrest, hparent, List.reverse_cons, ← List.cons_append, List.filter_append]
    simp only [List.filter_cons, List.filter_reverse, filter_dropWhile_isIdle, List.headD_cons]

theorem isAbsolute_iff {head : List Char} {rest : List (List Char)}
    (h : Text.pieces '/' path.toList = head :: rest) :
    path.isAbsolute = true ↔ head = [] ∧ rest ≠ [] := by
  have htext := Text.join_pieces '/' path.toList
  have hslash : '/' ∉ head := Text.not_mem_of_mem_pieces (h ▸ List.mem_cons_self)
  rw [h, Text.join_cons] at htext
  simp only [FilePath.isAbsolute, decide_eq_true_eq, ← htext]
  cases head with
  | nil => cases rest <;> simp
  | cons c head =>
    have hc : c ≠ '/' := fun hc => hslash (hc ▸ List.mem_cons_self)
    simp [hc]

/-- A single name is relative. -/
theorem isAbsolute_name (hname : '/' ∉ name.toList) : FilePath.isAbsolute name = false := by
  rw [FilePath.isAbsolute, decide_eq_false_iff_not]
  exact fun hfirst => hname (List.mem_of_head? hfirst)

theorem isAbsolute_of_head_ne_nil (hhead : path.parts.head ≠ []) :
    path.isAbsolute = false :=
  Bool.eq_false_iff.mpr fun habsolute => hhead (FilePath.head_of_isAbsolute habsolute)

/-- With more than one component, a path is absolute if the first one is empty. -/
theorem isAbsolute_iff_of_rest_ne_nil (h : path.parts.rest ≠ []) :
    path.isAbsolute = true ↔ path.parts.head = [] := by
  obtain ⟨head, rest, hpieces, -⟩ := FilePath.exists_pieces path
  rw [FilePath.parts_of_pieces hpieces] at h ⊢
  have hrest : rest ≠ [] := by
    rintro rfl
    exact h rfl
  rw [isAbsolute_iff hpieces, and_iff_left hrest]

/-- A path is absolute as much as its parent. -/
theorem isAbsolute_parent (h : path.parent? = some parent) :
    parent.isAbsolute = path.isAbsolute := by
  obtain ⟨hhead, hslash⟩ := List.forall_mem_cons.mp (FilePath.not_mem_of_mem_parts path)
  unfold FilePath.parent? at h
  cases hrest : path.parts.rest with
  | nil =>
    simp only [hrest] at h
    by_cases hempty : path.parts.head = []
    · simp [hempty] at h
    · rw [if_neg hempty, Option.some.injEq] at h
      rw [← h, isAbsolute_of_head_ne_nil hempty]
      rfl
  | cons last above =>
    have hpath := isAbsolute_iff_of_rest_ne_nil (hrest ▸ List.cons_ne_nil last above)
    simp only [hrest] at h
    cases habove : above.dropWhile FilePath.isIdle with
    | nil =>
      simp only [habove, Option.some.injEq] at h
      rw [← h]
      by_cases habsolute : path.isAbsolute = true
      · rw [if_pos habsolute, habsolute]
        rfl
      · rw [if_neg habsolute, Bool.eq_false_iff.mpr habsolute]
        exact isAbsolute_name (by rwa [String.toList_ofList])
    | cons next outer =>
      simp only [habove, Option.some.injEq] at h
      have hsub : (next :: outer).Sublist above := habove ▸ List.dropWhile_sublist _
      have hcut := FilePath.pieces_path (List.forall_mem_cons.mpr ⟨hhead, fun piece hp =>
        hslash piece (hrest ▸ List.mem_cons_of_mem _ (hsub.subset hp))⟩)
      rw [← h, Bool.eq_iff_iff, hpath, isAbsolute_iff hcut, and_iff_left (by simp)]

/-- A name that is joined to a path is its last piece. What is before it leads where the path
does. -/
theorem pieces_join (directory : FilePath) (hname : '/' ∉ name.toList) :
    ∃ before, Text.pieces '/' (directory.join name).toList = before ++ [name.toList] ∧
      (before.filter fun piece => !FilePath.isIdle piece).map String.ofList = moves directory := by
  rw [FilePath.join, isAbsolute_name hname, if_neg Bool.false_ne_true, moves_eq_map]
  by_cases hempty : directory.toList = []
  · refine ⟨[], ?_, by rw [hempty]; rfl⟩
    simp [hempty, Text.pieces_of_not_mem hname]
  · by_cases hslash : directory.toList.getLast? = some '/'
    · obtain ⟨text, htext⟩ := List.getLast?_eq_some_iff.mp hslash
      refine ⟨Text.pieces '/' text, ?_, ?_⟩
      · simp [htext, Text.pieces_snoc text hname]
      · have hnone : '/' ∉ ([] : List Char) := List.not_mem_nil
        rw [htext, Text.pieces_snoc text hnone, List.filter_append]
        simp [FilePath.isIdle]
    · refine ⟨Text.pieces '/' directory.toList, ?_, rfl⟩
      simp [hempty, hslash, Text.pieces_snoc directory.toList hname]

theorem isAbsolute_join (directory : FilePath) (hname : '/' ∉ name.toList) :
    (directory.join name).isAbsolute = directory.isAbsolute := by
  rw [FilePath.join, isAbsolute_name hname, if_neg Bool.false_ne_true]
  cases htext : directory.toList with
  | nil =>
    have hfirst : name.toList.head? ≠ some '/' := fun hfirst => hname (List.mem_of_head? hfirst)
    simp [FilePath.isAbsolute, htext, hfirst]
  | cons c text =>
    split <;> simp [FilePath.isAbsolute, htext]

theorem moves_join (directory : FilePath) (hname : '/' ∉ name.toList)
    (hstays : staysPut name = false) : moves (directory.join name) = moves directory ++ [name] := by
  obtain ⟨before, hpieces, hbefore⟩ := pieces_join directory hname
  have hidle : FilePath.isIdle name.toList = false := by
    rw [← staysPut_ofList, String.ofList_toList, hstays]
  rw [moves_eq_map, hpieces, List.filter_append, List.map_append, hbefore,
    List.filter_cons_of_pos (by simp [hidle]), List.filter_nil, List.map_singleton,
    String.ofList_toList]

/-- A joined name leads into the directory to which the path leads. -/
theorem addressOf_join (home : Address) (directory : FilePath) (hname : '/' ∉ name.toList)
    (hstays : staysPut name = false) (hup : name ≠ "..") :
    addressOf home (directory.join name) = name :: addressOf home directory := by
  rw [addressOf, moves_join directory hname hstays, isAbsolute_join directory hname,
    List.foldl_append, ← addressOf, List.foldl_cons, List.foldl_nil, Address.step, if_neg hup]

/-- Above a path is what it leads to without its last component. -/
theorem addressOf_parent (home : Address) (h : path.parent? = some parent) :
    addressOf home path = addressOf home parent ∨
      lastPart path ∈ moves path ∧
        addressOf home path = Address.step (addressOf home parent) (lastPart path) := by
  rw [addressOf, moves_parent h, ← isAbsolute_parent h, List.foldl_append, ← addressOf]
  cases hlast : staysPut (lastPart path) with
  | true => exact .inl (by simp [hlast])
  | false => exact .inr (by simp [hlast])

/-- All that stands between the slashes of a path, points apart, is in a component that counts. -/
theorem mem_moves {c : Char} (hslash : c ≠ '/') (hpoint : c ≠ '.') :
    c ∈ path.toList ↔ ∃ name ∈ moves path, c ∈ name.toList := by
  rw [← Text.join_pieces '/' path.toList, Text.mem_join hslash, moves_eq_map]
  simp only [List.mem_map, List.mem_filter]
  constructor
  · rintro ⟨piece, hpiece, hc⟩
    refine ⟨String.ofList piece, ⟨piece, ⟨hpiece, ?_⟩, rfl⟩, by rwa [String.toList_ofList]⟩
    rw [Bool.not_eq_true', FilePath.isIdle, Bool.or_eq_false_iff, decide_eq_false_iff_not,
      decide_eq_false_iff_not]
    refine ⟨?_, ?_⟩ <;> rintro rfl
    · exact List.not_mem_nil hc
    · exact hpoint (List.mem_singleton.mp hc)
  · rintro ⟨_, ⟨piece, ⟨hpiece, -⟩, rfl⟩, hc⟩
    exact ⟨piece, hpiece, by rwa [String.toList_ofList] at hc⟩

/-- Only what has no component has no parent. -/
theorem parent?_eq_none_iff :
    path.parent? = none ↔ path.parts.rest = [] ∧ path.parts.head = [] := by
  unfold FilePath.parent?
  cases hrest : path.parts.rest with
  | nil => simp [hrest]
  | cons last above => cases habove : above.dropWhile FilePath.isIdle <;> simp [hrest, habove]

/-- The name of a file is the last component of its path. -/
theorem moves_fileName (h : path.fileName? = some name) :
    staysPut name = false ∧ name ≠ ".." ∧ '/' ∉ name.toList ∧
      ∃ parent, path.parent? = some parent ∧ moves path = moves parent ++ [name] := by
  unfold FilePath.fileName? at h
  simp only at h
  split at h
  · cases h
  · next hlast =>
    rw [Option.some.injEq] at h
    obtain ⟨hidle, hup⟩ : FilePath.isIdle (path.parts.rest.headD path.parts.head) = false ∧
        path.parts.rest.headD path.parts.head ≠ ['.', '.'] := by simpa using hlast
    have hstays : staysPut name = false := by rw [← h, staysPut_ofList, hidle]
    refine ⟨hstays, fun hdots => hup ?_, ?_, ?_⟩
    · exact String.ofList_inj.mp (h.trans hdots)
    · rw [← h, String.toList_ofList]
      refine FilePath.not_mem_of_mem_parts path _ ?_
      cases path.parts.rest with
      | nil => exact List.mem_cons_self
      | cons last above => exact List.mem_cons_of_mem _ List.mem_cons_self
    · have hsome : path.parent? ≠ none := by
        rw [Ne, parent?_eq_none_iff]
        rintro ⟨hrest, hhead⟩
        simp [hrest, hhead, FilePath.isIdle] at hidle
      obtain ⟨parent, hparent⟩ := Option.ne_none_iff_exists'.mp hsome
      refine ⟨parent, hparent, ?_⟩
      have hmoves := moves_parent hparent
      rwa [lastPart, h, List.filter_cons_of_pos (by simp [hstays]), List.filter_nil] at hmoves

/-- A joined name is the name of the file. -/
theorem fileName?_join (directory : FilePath) (hname : '/' ∉ name.toList)
    (hstays : staysPut name = false) (hup : name ≠ "..") :
    (directory.join name).fileName? = some name := by
  obtain ⟨before, hpieces, -⟩ := pieces_join directory hname
  have hidle : FilePath.isIdle name.toList = false := by
    rw [← staysPut_ofList, String.ofList_toList, hstays]
  have hdots : name.toList ≠ ['.', '.'] := fun hdots => hup (String.toList_inj.mp hdots)
  have hlast : (directory.join name).parts.rest.headD (directory.join name).parts.head =
      name.toList := by
    cases before with
    | nil =>
      rw [List.nil_append] at hpieces
      rw [FilePath.parts_of_pieces hpieces]
      rfl
    | cons first before =>
      rw [List.cons_append] at hpieces
      rw [FilePath.parts_of_pieces hpieces, List.reverse_append, List.reverse_singleton,
        List.singleton_append, List.dropWhile_cons_of_neg (by simp [hidle]), List.headD_cons]
  unfold FilePath.fileName?
  simp only [hlast, hidle, hdots, Bool.false_or, decide_false, Bool.false_eq_true, if_false,
    String.ofList_toList]

end Texts

/-! ## 5. Paths in a tree -/

/-- The directory from which a path is followed. -/
def origin (tree : FileTree) (start : Place) (path : FilePath) : Place :=
  if path.isAbsolute then tree.rootPlace else start

/-- The place to which a path leads. A path without any component leads to its start. -/
def locate (tree : FileTree) (start : Place) (path : FilePath) : Except ReadError Place :=
  (tree.origin start path).follow (moves path)

section Paths

variable {tree : FileTree} {start place : Place} {home : Address} {path parent directory : FilePath}
  {name : String} {node : FileTree}

theorem moves_stay (path : FilePath) : ∀ name ∈ moves path, staysPut name = false := by
  intro name hname
  simpa using (List.mem_filter.mp hname).2

/-- A path leads to the address that its text says. -/
theorem IsAt.locate (hstart : IsAt tree home start) (h : tree.locate start path = .ok place) :
    IsAt tree (addressOf home path) place := by
  refine IsAt.follow ?_ (moves_stay path) h
  unfold origin
  split
  · exact .root
  · exact hstart

theorem resolve_eq (hempty : path ≠ "") (hnul : '\x00' ∉ path.toList) :
    tree.resolve start path =
      ((tree.origin start path).follow (components path)).map Place.node := by
  rw [resolve, if_neg hempty, if_neg (by simpa using hnul)]
  rfl

/-- What a path names is where the path leads. -/
theorem locate_of_resolve (h : tree.resolve start path = .ok node) :
    '\x00' ∉ path.toList ∧ ∃ place, tree.locate start path = .ok place ∧ place.node = node := by
  have hempty : path ≠ "" := by
    rintro rfl
    cases h
  have hnul : '\x00' ∉ path.toList := by
    intro hnul
    rw [resolve, if_neg hempty, if_pos (by simpa using hnul)] at h
    cases h
  rw [resolve_eq hempty hnul] at h
  cases hfollow : (tree.origin start path).follow (components path) with
  | error error =>
    rw [hfollow] at h
    cases h
  | ok place =>
    rw [hfollow] at h
    cases h
    exact ⟨hnul, place, Place.follow_moves hfollow, rfl⟩

/-- On the way to a path its parent is passed. -/
theorem locate_parent (hparent : path.parent? = some parent)
    (h : tree.locate start path = .ok place) :
    ∃ outer, tree.locate start parent = .ok outer ∧
      (outer = place ∨ outer.step (lastPart path) = .ok place) := by
  rw [locate, origin, moves_parent hparent, ← isAbsolute_parent hparent, ← origin] at h
  cases hlast : staysPut (lastPart path) with
  | true =>
    rw [List.filter_cons_of_neg (by simp [hlast]), List.filter_nil, List.append_nil] at h
    exact ⟨place, h, .inl rfl⟩
  | false =>
    rw [List.filter_cons_of_pos (by simp [hlast]), List.filter_nil] at h
    obtain ⟨outer, houter, hstep⟩ := Place.follow_snoc_eq_ok.mp h
    exact ⟨outer, houter, .inr hstep⟩

theorem not_mem_parent {c : Char} (hslash : c ≠ '/') (hpoint : c ≠ '.')
    (hparent : path.parent? = some parent) (h : c ∉ path.toList) : c ∉ parent.toList := by
  rw [mem_moves hslash hpoint] at h ⊢
  rintro ⟨name, hname, hc⟩
  exact h ⟨name, moves_parent hparent ▸ List.mem_append_left _ hname, hc⟩

/-- The parent of a path to a directory leads to a directory. -/
theorem isDirectory_parent (hparent : path.parent? = some parent)
    (h : tree.locate start path = .ok place) (hplace : place.node.isDirectory = true) :
    ∃ outer, tree.locate start parent = .ok outer ∧ outer.node.isDirectory = true := by
  obtain ⟨outer, houter, rfl | hstep⟩ := locate_parent hparent h
  · exact ⟨outer, houter, hplace⟩
  · exact ⟨outer, houter, Place.isDirectory_of_step hstep⟩

/-- A joined name is looked up where the path leads. -/
theorem resolve_join (h : tree.locate start directory = .ok place)
    (hplace : place.node.isDirectory = true) (hnul : '\x00' ∉ directory.toList)
    (hslash : '/' ∉ name.toList) (hname : '\x00' ∉ name.toList) (hempty : name ≠ "") :
    tree.resolve start (directory.join name) = (place.step name).map Place.node := by
  obtain ⟨before, hpieces, hbefore⟩ := pieces_join directory hslash
  have hjoined : '\x00' ∉ (directory.join name).toList := by
    rw [FilePath.join, isAbsolute_name hslash, if_neg Bool.false_ne_true]
    split <;> simp [hnul, hname]
  have hfollow : (tree.origin start directory).follow (before.map String.ofList) = .ok place := by
    refine Place.follow_of_moves hplace ?_
    rw [List.filter_map]
    simp only [Function.comp_def, staysPut_ofList, hbefore]
    exact h
  have horigin : tree.origin start (directory.join name) = tree.origin start directory := by
    rw [origin, isAbsolute_join directory hslash, origin]
  have hcomponents : components (directory.join name) = before.map String.ofList ++ [name] := by
    rw [components, hpieces, List.map_append, List.map_singleton, String.ofList_toList]
  have hne : directory.join name ≠ "" := by
    rw [FilePath.join, isAbsolute_name hslash, if_neg Bool.false_ne_true]
    split <;> simp [hempty]
  rw [resolve_eq hne hjoined, horigin, hcomponents, Place.follow_append_of_ok hfollow,
    Place.follow_cons]
  cases place.step name <;> rfl

end Paths

end MockGraph.FileTree
