import MockGraph.Text.Quoted
import MockGraph.Yaml.Cursor

/-!
# `Yaml/Scalar`: scalars in their three styles

A plain scalar ends at a comment, at an indicator, or where a line is indented too little. A quoted
scalar ends at its quote mark; two single quote marks stand for one, and a double quoted scalar has
escapes. A block scalar consists of the lines that are indented at least as far as its first one.
Folded styles join lines as gaps do.
-/

set_option autoImplicit false

namespace MockGraph.Yaml

/-! ## 1. Plain scalars -/

/-- Whether a plain scalar ends at this character of a word. -/
def endsPlain (inFlow : Bool) (c next : Char) : Bool :=
  (c = ':' && (isGap next || (inFlow && isFlow next))) || (inFlow && isFlow c)

/-- The word of a plain scalar that starts here. -/
def plainWord (inFlow : Bool) : List Char → List Char
  | [] => []
  | c :: rest =>
    if isGap c || endsPlain inFlow c (rest.headD '\x00') then [] else c :: plainWord inFlow rest

/-- A plain scalar that was read, and whether the reader stands on a later line than its last word. -/
structure Plain where
  text : List Char
  cursor : Cursor
  newLine : Bool

/-- Goes on reading a plain scalar after a gap. Its lines are indented by at least `indent`. -/
def plainFrom (inFlow : Bool) (indent : Nat) (text : List Char) (gap : Gap) :
    Nat → Cursor → Except Error Plain
  | 0, cursor => .ok ⟨text, cursor, false⟩
  | fuel + 1, cursor =>
    if cursor.atAnyMark || cursor.peek = '#' then .ok ⟨text, cursor, gap.breaks != 0⟩
    else
      let word := plainWord inFlow cursor.rest
      let after := cursor.skipMany word.length
      let (text, gap) := if word = [] then (text, gap) else (text ++ gap.text ++ word, ⟨[], 0⟩)
      if !isBlank after.peek && !isBreak after.peek then .ok ⟨text, after, gap.breaks != 0⟩
      else do
        let (gap, after) ← takeGap indent gap after.fuel after
        if !inFlow && after.column < indent then return ⟨text, after, gap.breaks != 0⟩
        plainFrom inFlow indent text gap fuel after

/-- A plain scalar. -/
def plain (inFlow : Bool) (indent : Nat) (cursor : Cursor) : Except Error Plain :=
  plainFrom inFlow indent [] ⟨[], 0⟩ cursor.fuel cursor

/-! ## 2. Quoted scalars -/

/-- The character that a backslash and a letter stand for. -/
def escaped? : Char → Option Char
  | '0' => some '\x00'
  | 'a' => some '\x07'
  | 'b' => some '\x08'
  | 't' => some '\t'
  | '\t' => some '\t'
  | 'n' => some '\n'
  | 'v' => some '\x0b'
  | 'f' => some '\x0c'
  | 'r' => some '\r'
  | 'e' => some '\x1b'
  | ' ' => some ' '
  | '"' => some '"'
  | '\'' => some '\''
  | '\\' => some '\\'
  | 'N' => some '\u0085'
  | '_' => some '\u00a0'
  | 'L' => some '\u2028'
  | 'P' => some '\u2029'
  | _ => none

/-- How many hexadecimal digits follow a backslash and a letter. -/
def escapeDigits? : Char → Option Nat
  | 'x' => some 2
  | 'u' => some 4
  | 'U' => some 8
  | _ => none

/-- The character of a code point that is written in hexadecimal digits. -/
def codePoint? (digits : List Char) (count : Nat) : Option Char := do
  if digits.length ≠ count then none
  let values ← digits.mapM Text.hexValue?
  let value := values.foldl (fun n digit => 16 * n + digit) 0
  if value.isValidChar then some (Char.ofNat value) else none

/-- An escape after its backslash. -/
def escape (cursor : Cursor) : Except Error (Char × Cursor) :=
  match escaped? cursor.peek, escapeDigits? cursor.peek with
  | some c, _ => .ok (c, cursor.skip)
  | none, some count =>
    match codePoint? (cursor.skip.rest.take count) count with
    | some c => .ok (c, cursor.skipMany (count + 1))
    | none => .error .escape
  | none, none => .error .escape

/-- Words and gaps of a quoted scalar up to its end. A line end after a backslash is no gap, but what
follows it up to the next word is. -/
def quotedFrom (mark : Char) (text : List Char) : Nat → Cursor → Except Error (List Char × Cursor)
  | 0, _ => .error .unfinished
  | fuel + 1, cursor =>
    let c := cursor.peek
    if cursor.atAnyMark || isEnd c then .error .unfinished
    else if c = mark then
      if mark = '\'' && cursor.look 1 = mark then
        quotedFrom mark (text ++ [mark]) fuel cursor.skip.skip
      else .ok (text, cursor.skip)
    else if isBlank c || isBreak c then do
      let (gap, after) ← takeGap 0 ⟨[], 0⟩ cursor.fuel cursor
      quotedFrom mark (text ++ gap.text) fuel after
    else if c = '\\' && mark = '"' then
      if isBreak (cursor.look 1) then do
        let (gap, after) ← takeGap 0 ⟨[], 1⟩ cursor.fuel cursor.skip.skipBreak
        quotedFrom mark (text ++ List.replicate (gap.breaks - 1) '\n') fuel after
      else do
        let (e, after) ← escape cursor.skip
        quotedFrom mark (text ++ [e]) fuel after
    else quotedFrom mark (text ++ [c]) fuel cursor.skip

/-- A quoted scalar that starts with its quote mark. -/
def quoted (cursor : Cursor) : Except Error (List Char × Cursor) :=
  quotedFrom cursor.peek [] cursor.fuel cursor.skip

/-! ## 3. Block scalars -/

/-- What happens to the line ends at the end of a block scalar. -/
inductive Chomping where
  | strip
  | clip
  | keep

/-- The first line of a block scalar: chomping, and the indentation if it is given. -/
structure Header where
  chomping : Chomping
  increment : Option Nat

/-- The chomping that a character asks for. -/
def chomping? : Char → Option Chomping
  | '+' => some .keep
  | '-' => some .strip
  | _ => none

/-- The indentation that a digit asks for; zero is refused. -/
def increment? (c : Char) : Except Error (Option Nat) :=
  if c = '0' then .error .header
  else .ok (if c.isDigit then some (c.toNat - '0'.toNat) else none)

/-- The indicators of a header, in either order. -/
def indicators (cursor : Cursor) : Except Error (Header × Cursor) := do
  match chomping? cursor.peek with
  | some chomping =>
    let increment ← increment? cursor.skip.peek
    return (⟨chomping, increment⟩, cursor.skipMany (if increment.isSome then 2 else 1))
  | none =>
    let increment ← increment? cursor.peek
    let after := if increment.isSome then cursor.skip else cursor
    match increment, chomping? after.peek with
    | some _, some chomping => return (⟨chomping, increment⟩, after.skip)
    | _, _ => return (⟨.clip, increment⟩, after)

/-- A whole header, with a comment if there is one, and the line end. -/
def header (cursor : Cursor) : Except Error (Header × Cursor) := do
  let (header, after) ← indicators cursor
  let after := after.skipWhile isBlank
  let after := if after.peek = '#' then after.skipWhile (!isBreakOrEnd ·) else after
  if !isBreakOrEnd after.peek then throw .header
  return (header, if isBreak after.peek then after.skipBreak else after)

/-- Empty lines in a block scalar, counted, up to the indentation of the next line. `deepest` is the
deepest indentation on the way. -/
def emptyLines (indent : Option Nat) (breaks deepest : Nat) :
    Nat → Cursor → Except Error (Nat × Nat × Cursor)
  | 0, cursor => .ok (breaks, deepest, cursor)
  | fuel + 1, cursor =>
    let spaces := cursor.taken (· = ' ')
    let wanted := match indent with
      | none => spaces.length
      | some indent => min spaces.length (indent - cursor.column)
    let after := cursor.skipMany wanted
    let deepest := max deepest after.column
    let inside := match indent with
      | none => true
      | some indent => after.column < indent
    if inside && after.peek = '\t' then .error .tab
    else if isBreak after.peek then emptyLines indent (breaks + 1) deepest fuel after.skipBreak
    else .ok (breaks, deepest, after)

/-- The lines of a block scalar so far. -/
structure Block where
  text : List Char
  /-- Whether the last line has an end. -/
  lineEnd : Bool
  /-- How many empty lines follow it. -/
  empty : Nat
  /-- Whether the last line starts with a blank. -/
  indented : Bool

/-- What stands between the last line of a block and a next one. -/
def Block.joint (literal : Bool) (block : Block) (nextIndented : Bool) : List Char :=
  let empty := List.replicate block.empty '\n'
  if !literal && block.lineEnd && !block.indented && !nextIndented then
    if block.empty = 0 then [' '] else empty
  else (if block.lineEnd then ['\n'] else []) ++ empty

/-- Adds the lines of a block scalar that start at the column `indent`. -/
def blockLines (literal : Bool) (indent : Nat) (block : Block) :
    Nat → Cursor → Except Error (Block × Cursor)
  | 0, cursor => .ok (block, cursor)
  | fuel + 1, cursor =>
    if cursor.column ≠ indent || isEnd cursor.peek then .ok (block, cursor)
    else
      let indented := isBlank cursor.peek
      let line := cursor.taken (!isBreakOrEnd ·)
      let text := block.text ++ block.joint literal indented ++ line
      let after := cursor.skipMany line.length
      if isBreak after.peek then do
        let (empty, _, next) ← emptyLines (some indent) 0 0 after.fuel after.skipBreak
        blockLines literal indent ⟨text, true, empty, indented⟩ fuel next
      else .ok (⟨text, false, 0, indented⟩, after)

/-- The text of a block with its end chomped. -/
def Block.chomp (block : Block) (chomping : Chomping) : List Char :=
  let last := if block.lineEnd then ['\n'] else []
  match chomping with
  | .strip => block.text
  | .clip => block.text ++ last
  | .keep => block.text ++ last ++ List.replicate block.empty '\n'

/-- A block scalar that starts with its indicator, inside a block that is indented by `outer`. -/
def blockScalar (outer : Int) (cursor : Cursor) : Except Error (List Char × Cursor) := do
  let literal := cursor.peek = '|'
  let (header, start) ← header cursor.skip
  let given := header.increment.map fun n => (max outer 0).toNat + n
  let (empty, deepest, first) ← emptyLines given 0 0 start.fuel start
  let indent := given.getD (max deepest (max (outer + 1) 1).toNat)
  let (block, after) ← blockLines literal indent ⟨[], false, empty, false⟩ first.fuel first
  return (block.chomp header.chomping, after)

end MockGraph.Yaml
