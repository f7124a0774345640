import MockGraph.Json.Basic
import MockGraph.Text.Pieces

/-!
# `Json/Path`: addressing and overwriting a part of a value

A path is a list of steps, each an object key or a list index of 64 bits. Its text has a slash
before each step; reading a text, empty segments vanish and a segment that is a decimal number of 64
bits, with or without a leading plus, is an index.

`Json.get?` follows a path. `Json.assign` overwrites what a path addresses and creates the missing
levels on the way: a null becomes a list before an index and an object before a key. An index applied
to an object is the key that spells it. An assignment is dropped when a step does not fit the value
it meets; `Assigned.applied` tells. A dropped assignment leaves behind the levels that it created
before it met that step.
-/

set_option autoImplicit false

namespace MockGraph

/-! ## 1. Paths and their text -/

/-- One step of a path. -/
inductive Step where
  | index (i : UInt64)
  | key (name : String)
  deriving DecidableEq

/-- Steps from the outside in. -/
abbrev Path := List Step

/-- The 64 bit index that a segment spells: decimal digits after an optional plus. -/
def readIndex? (segment : List Char) : Option UInt64 :=
  let digits := match segment with
    | '+' :: rest => rest
    | all => all
  if digits ≠ [] ∧ digits.all Char.isDigit ∧ digitsValue digits < UInt64.size then
    some (UInt64.ofNat (digitsValue digits))
  else none

/-- A segment that spells an index is one, every other segment is a key. -/
def Step.ofSegment (segment : String) : Step :=
  match readIndex? segment.toList with
  | some i => .index i
  | none => .key segment

/-- The text of a step; also the key that an index addresses in an object. -/
def Step.spelling : Step → String
  | .index i => String.ofList (Nat.toDigits 10 i.toNat)
  | .key name => name

/-- Reads a list of segments, empty ones included. -/
def Path.ofSegments (segments : List String) : Path := segments.map Step.ofSegment

/-- Reads the text of a path: the segments between slashes, without the empty ones. -/
def Path.parse (text : String) : Path :=
  Path.ofSegments
    (((Text.pieces '/' text.toList).filter (· ≠ [])).map String.ofList)

/-- The text of a path: a slash before each step. -/
def Path.render (path : Path) : String :=
  String.join (path.map fun step => "/" ++ step.spelling)

/-! ## 2. Reading along a path -/

namespace Json

/-- The value that a path addresses. -/
def get? : Json → Path → Option Json
  | value, [] => some value
  | .object members, step :: rest => (Object.get? members step.spelling).bind (get? · rest)
  | .array items, .index i :: rest => items[i.toNat]?.bind (get? · rest)
  | _, _ :: _ => none

/-! ## 3. Overwriting along a path -/

/-- The most nulls that one assignment may append to a list. -/
def maxPadding : Nat := 4096

/-- What an assignment leaves, and whether it took effect. -/
structure Assigned where
  value : Json
  applied : Bool

/-- A null turns into the empty container that a step needs; other values stay. -/
def opened (value : Json) (step : Step) : Json :=
  match value, step with
  | .null, .index _ => .array []
  | .null, .key _ => .object []
  | value, _ => value

/-- Overwrites what the steps address. -/
def assignAt : Path → Json → Json → Assigned
  | [], _, value => ⟨value, true⟩
  | step :: rest, current, value =>
    match current.opened step, step with
    | .object members, step =>
      let child := assignAt rest ((Object.get? members step.spelling).getD .null) value
      ⟨.object (Object.insert members step.spelling child.value), child.applied⟩
    | .array items, .index i =>
      let missing := i.toNat + 1 - items.length
      if missing ≤ maxPadding then
        let padded := items ++ List.replicate missing .null
        let child := assignAt rest (padded[i.toNat]?.getD .null) value
        ⟨.array (padded.set i.toNat child.value), child.applied⟩
      else ⟨.array items, false⟩
    | current, _ => ⟨current, false⟩

/-- The value after an assignment. The empty path addresses nothing that could be overwritten. -/
def assign (current : Json) (path : Path) (value : Json) : Json :=
  match path with
  | [] => current
  | path => (assignAt path current value).value

/-- The value after a sequence of assignments, from the first to the last. -/
def assignAll (current : Json) (assignments : List (Path × Json)) : Json :=
  assignments.foldl (fun value (path, new) => value.assign path new) current

end Json

end MockGraph
