import MockGraph.Files.Path
import MockGraph.Project.Error

/-!
# `Files/Tree`: files and how they are read

`FileAccess` is all that the library asks of files: whether a path names a file, and the text of a
file. It is given in a monad, so it can be the real thing.

A `FileTree` holds files in memory and gives such access. A path is followed from the working
directory, or from the root if it is absolute. Each component is looked up in the directory reached so
far, so `..` needs its directory to exist, and a slash at the end needs a directory before it. The
parent of the root is the root.
-/

set_option autoImplicit false

namespace MockGraph

/-! ## 1. Access to files -/

/-- What is asked of files. -/
structure FileAccess (m : Type → Type) where
  /-- Whether a path names a file. -/
  isFile : FilePath → m Bool
  /-- The text of the file that a path names. -/
  read : FilePath → m (Except ReadError String)

/-! ## 2. Trees -/

/-- A file or a directory. -/
inductive FileTree where
  | file (bytes : List UInt8)
  | directory (entries : List (String × FileTree))

namespace FileTree

/-- An entry of a directory. -/
def child? : FileTree → String → Option FileTree
  | .directory entries, name => (entries.find? (·.1 = name)).map (·.2)
  | .file _, _ => none

/-- Whether a node is a directory. -/
def isDirectory : FileTree → Bool
  | .directory _ => true
  | .file _ => false

/-- A place in a tree: the node there, and the directories around it from the innermost outwards. -/
structure Place where
  node : FileTree
  around : List FileTree

/-- The most bytes that a component may have. -/
def nameLimit : Nat := 255

/-- Follows one component. -/
def Place.step (place : Place) (name : String) : Except ReadError Place :=
  if !place.node.isDirectory then .error .notDirectory
  else if name = "" || name = "." then .ok place
  else if name = ".." then
    match place.around with
    | [] => .ok place
    | outer :: around => .ok ⟨outer, around⟩
  else if nameLimit < name.utf8ByteSize then .error (.other "File name too long (os error 36)")
  else match place.node.child? name with
    | some node => .ok ⟨node, place.node :: place.around⟩
    | none => .error .missing

/-- Follows components from a place. -/
def Place.follow (place : Place) (names : List String) : Except ReadError Place :=
  names.foldlM Place.step place

def rootPlace (tree : FileTree) : Place := ⟨tree, []⟩

/-- The components of a path as they are followed. -/
def components (path : FilePath) : List String :=
  (Text.pieces '/' path.toList).map String.ofList

/-- The node that a path names, seen from the place `start`. -/
def resolve (tree : FileTree) (start : Place) (path : FilePath) : Except ReadError FileTree :=
  if path = "" then .error .missing
  else if path.toList.contains '\x00' then
    .error (.other "file name contained an unexpected NUL byte")
  else
    let from? := if path.isAbsolute then tree.rootPlace else start
    (from?.follow (components path)).map Place.node

/-- The text of a node. -/
def text : FileTree → Except ReadError String
  | .directory _ => .error .isDirectory
  | .file bytes =>
    match String.fromUTF8? ⟨bytes.toArray⟩ with
    | some text => .ok text
    | none => .error .notText

/-- Access to the files of a tree, seen from the place `start`. -/
def access (tree : FileTree) (start : Place) : FileAccess Id where
  isFile path :=
    match tree.resolve start path with
    | .ok (.file _) => true
    | _ => false
  read path := (tree.resolve start path).bind text

/-! ## 3. Building trees -/

mutual

/-- Puts a node at the end of a list of names, with the directories on the way. A directory that is
there already stays. -/
def put (tree : FileTree) : List String → FileTree → FileTree
  | [], node =>
    match tree, node with
    | .directory entries, .directory _ => .directory entries
    | _, node => node
  | name :: names, node =>
    match tree with
    | .directory entries => .directory (putIn entries name names node)
    | .file bytes => .file bytes

/-- Puts a node below the entry of a name. -/
def putIn : List (String × FileTree) → String → List String → FileTree →
    List (String × FileTree)
  | [], name, names, node => [(name, put (.directory []) names node)]
  | (key, entry) :: rest, name, names, node =>
    if key = name then (key, put entry names node) :: rest
    else (key, entry) :: putIn rest name names node

end

end FileTree

end MockGraph
