import MockGraph.Text.Pieces

/-!
# `Files/Path`: the parts of a file path

A path is a text with slashes. Its parts are read off the text alone: empty components and `.` count
for nothing, except a `.` at the very beginning, and `..` is a component like any other. Nothing is
normalised, so the parent of a path is a piece of its text.
-/

set_option autoImplicit false

namespace MockGraph

/-- A path as it is written. -/
abbrev FilePath := String

namespace FilePath

/-! ## 1. Components -/

/-- The first component, and the others from the last to the first. What counts for nothing is still
there, except at the end. -/
structure Parts where
  head : List Char
  rest : List (List Char)

/-- Whether a component after the first counts for nothing. -/
def isIdle (component : List Char) : Bool := component = [] || component = ['.']

/-- The components of a path. -/
def parts (path : FilePath) : Parts :=
  match Text.pieces '/' path.toList with
  | [] => ⟨[], []⟩
  | head :: rest => ⟨head, rest.reverse.dropWhile isIdle⟩

/-- Whether a path starts at the root. -/
def isAbsolute (path : FilePath) : Bool := path.toList.head? = some '/'

/-- The text of components. -/
def Parts.path (parts : Parts) : FilePath :=
  String.ofList (Text.join '/' (parts.head :: parts.rest.reverse))

/-! ## 2. Parents and names -/

/-- The path without its last component; the root and the empty path have no parent. -/
def parent? (path : FilePath) : Option FilePath :=
  let parts := path.parts
  match parts.rest with
  | [] => if parts.head = [] then none else some ""
  | _ :: rest =>
    match rest.dropWhile isIdle with
    | [] => some (if path.isAbsolute then "/" else String.ofList parts.head)
    | rest => some (Parts.path ⟨parts.head, rest⟩)

/-- How many components a path has, the beginning included. -/
def depth (path : FilePath) : Nat := (Text.pieces '/' path.toList).length

/-- A path and its parents, from the path outwards; at most `fuel` of them. -/
def ancestorsUpTo : Nat → FilePath → List FilePath
  | 0, _ => []
  | fuel + 1, path =>
    path :: match path.parent? with
      | none => []
      | some parent => ancestorsUpTo fuel parent

/-- A path and its parents, from the path outwards. -/
def ancestors (path : FilePath) : List FilePath := ancestorsUpTo (path.depth + 1) path

/-- The last component, unless it is `.` or `..`. -/
def fileName? (path : FilePath) : Option String :=
  let parts := path.parts
  let last := parts.rest.headD parts.head
  if isIdle last || last = ['.', '.'] then none else some (String.ofList last)

/-- What follows the last point in the last component, if something precedes the point. -/
def extension? (path : FilePath) : Option String :=
  path.fileName?.bind fun name =>
    let ending := name.toList.reverse.takeWhile (· ≠ '.')
    match name.toList.reverse.drop ending.length with
    | _ :: _ :: _ => some (String.ofList ending.reverse)
    | _ => none

/-! ## 3. Joining -/

/-- A path inside another one. An absolute path stands for itself. -/
def join (base path : FilePath) : FilePath :=
  if path.isAbsolute then path
  else if base.toList = [] || base.toList.getLast? = some '/' then base ++ path
  else base ++ "/" ++ path

end FilePath

end MockGraph
