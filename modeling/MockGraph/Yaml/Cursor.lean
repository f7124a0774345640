/-!
# `Yaml/Cursor`: places in a YAML text, and line folding

A `Cursor` is what is left of a text together with the place it starts at; only a line feed starts a
new line. A NUL ends a text, and beyond the end everything reads as a NUL.

A gap is a run of blanks and line ends between two words. On one line it stands for itself. Across
lines its blanks are dropped, and one line end less than there are is kept, or a blank in place of a
single one.
-/

set_option autoImplicit false

namespace MockGraph.Yaml

/-! ## 1. Errors -/

/-- Why a text is not YAML. -/
inductive Error where
  | unfinished
  | character (c : Char)
  | escape
  | tab
  | entryPlace
  | keyPlace
  | valuePlace
  | missingColon
  | header
  | directive
  | anchor
  | tag
  | expected (what : String)
  | unknownAnchor (name : String)
  | noDocument
  | severalDocuments
  /-- The text is YAML but holds something else than is looked for. -/
  | shape (what : String)
  deriving DecidableEq

def Error.message : Error → String
  | .unfinished => "the text ends inside a quoted scalar"
  | .character c => "unexpected character " ++ String.ofList [c]
  | .escape => "unknown escape in a quoted scalar"
  | .tab => "a tab stands where an indentation is expected"
  | .entryPlace => "a block entry may not stand here"
  | .keyPlace => "a mapping key may not stand here"
  | .valuePlace => "a mapping value may not stand here"
  | .missingColon => "a key has no colon after it"
  | .header => "malformed start of a block scalar"
  | .directive => "malformed directive"
  | .anchor => "malformed anchor or alias"
  | .tag => "malformed tag"
  | .expected what => "expected " ++ what
  | .unknownAnchor name => "there is no anchor `" ++ name ++ "`"
  | .noDocument => "there is no document"
  | .severalDocuments => "there is more than one document"
  | .shape what => "expected " ++ what ++ " instead"

/-! ## 2. Characters -/

/-- Line ends. -/
def isBreak (c : Char) : Bool := c = '\n' || c = '\r'

/-- Blanks inside a line. -/
def isBlank (c : Char) : Bool := c = ' ' || c = '\t'

/-- The end of a text. -/
def isEnd (c : Char) : Bool := c = '\x00'

/-- The end of a line or text. -/
def isBreakOrEnd (c : Char) : Bool := isBreak c || isEnd c

/-- What words do not consist of. -/
def isGap (c : Char) : Bool := isBlank c || isBreakOrEnd c

/-- The indicators of flow collections. -/
def isFlow (c : Char) : Bool := [',', '[', ']', '\x7b', '\x7d'].contains c

/-! ## 3. Cursors -/

/-- The rest of a text and its place. -/
structure Cursor where
  rest : List Char
  index : Nat
  line : Nat
  column : Nat

namespace Cursor

/-- The start of a text. -/
def ofText (text : String) : Cursor := ⟨text.toList, 0, 0, 0⟩

/-- The character `n` places further. -/
def look (cursor : Cursor) (n : Nat) : Char := cursor.rest.getD n '\x00'

/-- The next character. -/
def peek (cursor : Cursor) : Char := cursor.look 0

/-- Passes the next character. -/
def skip (cursor : Cursor) : Cursor :=
  match cursor.rest with
  | [] => cursor
  | c :: rest =>
    if c = '\n' then ⟨rest, cursor.index + 1, cursor.line + 1, 0⟩
    else ⟨rest, cursor.index + 1, cursor.line, cursor.column + 1⟩

/-- Passes `n` characters. -/
def skipMany (cursor : Cursor) : Nat → Cursor
  | 0 => cursor
  | n + 1 => cursor.skip.skipMany n

/-- Passes a line end, which may have two characters. -/
def skipBreak (cursor : Cursor) : Cursor :=
  if cursor.peek = '\r' && cursor.look 1 = '\n' then cursor.skip.skip else cursor.skip

/-- Passes characters as long as they satisfy `p`, which the end of a text has to fail. -/
def skipWhile (cursor : Cursor) (p : Char → Bool) : Cursor :=
  cursor.skipMany (cursor.rest.takeWhile p).length

/-- The characters up to the first that fails `p`. -/
def taken (cursor : Cursor) (p : Char → Bool) : List Char := cursor.rest.takeWhile p

/-- Whether a mark between documents starts here: three dashes or points in the first column. -/
def atMark (cursor : Cursor) (mark : Char) : Bool :=
  cursor.column = 0 && (cursor.rest.take 3 = [mark, mark, mark]) && isGap (cursor.look 3)

/-- Whether a mark between documents starts here. -/
def atAnyMark (cursor : Cursor) : Bool := cursor.atMark '-' || cursor.atMark '.'

/-- A number of steps that passes over everything that is left. -/
def fuel (cursor : Cursor) : Nat := cursor.rest.length + 1

end Cursor

/-! ## 4. Gaps -/

/-- A run of blanks and line ends. -/
structure Gap where
  /-- The blanks, if there is no line end. -/
  blanks : List Char
  breaks : Nat

/-- What a gap between two words stands for. -/
def Gap.text (gap : Gap) : List Char :=
  match gap.breaks with
  | 0 => gap.blanks
  | 1 => [' ']
  | n + 2 => List.replicate (n + 1) '\n'

/-- Passes a gap. After a line end no tab may stand left of the column `limit`. -/
def takeGap (limit : Nat) (gap : Gap) : Nat → Cursor → Except Error (Gap × Cursor)
  | 0, cursor => .ok (gap, cursor)
  | fuel + 1, cursor =>
    let c := cursor.peek
    if isBreak c then takeGap limit ⟨[], gap.breaks + 1⟩ fuel cursor.skipBreak
    else if !isBlank c then .ok (gap, cursor)
    else if gap.breaks = 0 then takeGap limit ⟨gap.blanks ++ [c], 0⟩ fuel cursor.skip
    else if c = '\t' && cursor.column < limit then .error .tab
    else takeGap limit gap fuel cursor.skip

end MockGraph.Yaml
