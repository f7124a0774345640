import MockGraph.Yaml.Scalar

/-!
# `Yaml/Token`: the tokens of a YAML text

Indentation becomes tokens here: a block collection starts with a token where a deeper column is
reached and ends with one where it is left, so that a reader of tokens needs no columns.

A mapping key is known to be one only by the colon after it. What may be a key is therefore kept as a
*candidate* with its place among the tokens, and a colon puts the `key` token there. A candidate is
given up on the next line, or after 1024 characters.
-/

set_option autoImplicit false

namespace MockGraph.Yaml

/-! ## 1. Tokens -/

/-- A tag, split after its handle. -/
structure Tag where
  handle : String
  suffix : String
  deriving DecidableEq

inductive Token where
  | directive
  | documentStart
  | documentEnd
  | blockSequence
  | blockMapping
  | blockEnd
  | flowSequence
  | flowSequenceEnd
  | flowMapping
  | flowMappingEnd
  /-- The dash of a block sequence. -/
  | entry
  | comma
  | key
  | value
  | alias (name : String)
  | anchor (name : String)
  | tag (tag : Tag)
  | scalar (text : String) (plain : Bool)
  deriving DecidableEq

/-! ## 2. Names and tags -/

/-- Characters of anchors, handles and directives. -/
def isNameChar (c : Char) : Bool := c.isAlphanum || c = '_' || c = '-'

/-- Characters that may end an anchor besides gaps. -/
def endsAnchor (c : Char) : Bool :=
  isGap c || ['?', ':', ',', ']', '\x7d', '%', '@', '\x60'].contains c

/-- The name of an anchor or alias, after its indicator. -/
def anchorName (cursor : Cursor) : Except Error (String × Cursor) :=
  let name := cursor.taken isNameChar
  let after := cursor.skipMany name.length
  if name = [] || !endsAnchor after.peek then .error .anchor else .ok (String.ofList name, after)

/-- Characters of tags that stand for themselves. -/
def isTagChar (c : Char) : Bool :=
  isNameChar c
    || [';', '/', '?', ':', '@', '&', '=', '+', '$', ',', '.', '!', '~', '*', '\'', '(', ')', '[',
        ']'].contains c

/-- The rest of a tag. A percent sign with two hexadecimal digits stands for an ASCII character. -/
def tagText (text : List Char) : Nat → Cursor → Except Error (List Char × Cursor)
  | 0, cursor => .ok (text, cursor)
  | fuel + 1, cursor =>
    let c := cursor.peek
    if isTagChar c then tagText (text ++ [c]) fuel cursor.skip
    else if c = '%' then
      match codePoint? (cursor.skip.rest.take 2) 2 with
      | some e => if e.toNat < 128 then tagText (text ++ [e]) fuel (cursor.skipMany 3) else .error .tag
      | none => .error .tag
    else .ok (text, cursor)

/-- The rest of a tag, which must not be empty. -/
def tagSuffix (cursor : Cursor) : Except Error (String × Cursor) := do
  let (text, after) ← tagText [] cursor.fuel cursor
  if text = [] then throw .tag
  return (String.ofList text, after)

/-- The handle at the start of a tag: an exclamation mark, perhaps with a name and a second one. -/
def tagHandle (cursor : Cursor) : Except Error (List Char × Cursor) :=
  if cursor.peek ≠ '!' then .error .tag
  else
    let name := cursor.skip.taken isNameChar
    let after := cursor.skipMany (name.length + 1)
    if after.peek = '!' then .ok ('!' :: name ++ ['!'], after.skip) else .ok ('!' :: name, after)

/-- A tag without the check of what follows it. -/
def tagBody (cursor : Cursor) : Except Error (Tag × Cursor) :=
  if cursor.look 1 = '<' then do
    let (suffix, after) ← tagSuffix cursor.skip.skip
    if after.peek ≠ '>' then throw .tag
    return (⟨"", suffix⟩, after.skip)
  else do
    let (handle, after) ← tagHandle cursor
    if handle.length ≥ 2 && handle.getLast? = some '!' then
      let (suffix, after) ← tagSuffix after
      return (⟨String.ofList handle, suffix⟩, after)
    else
      let (suffix, after) ← tagText (handle.drop 1) after.fuel after
      return (if suffix = [] then ⟨"", "!"⟩ else ⟨"!", String.ofList suffix⟩, after)

/-- A tag, which a gap has to follow. -/
def tag (cursor : Cursor) : Except Error (Tag × Cursor) := do
  let (tag, after) ← tagBody cursor
  if !isGap after.peek then throw .tag
  return (tag, after)

/-! ## 3. Directives -/

/-- A part of a version: one to nine digits. -/
def versionPart (cursor : Cursor) : Except Error Cursor :=
  let digits := cursor.taken Char.isDigit
  if digits = [] || digits.length > 9 then .error .directive
  else .ok (cursor.skipMany digits.length)

/-- What a directive of the given name holds. Unknown directives hold anything. -/
def directiveBody (name : String) (cursor : Cursor) : Except Error Cursor :=
  let start := cursor.skipWhile isBlank
  if name = "YAML" then do
    let after ← versionPart start
    if after.peek ≠ '.' then throw .directive
    versionPart after.skip
  else if name = "TAG" then do
    let (handle, after) ← tagHandle start
    if handle.length ≥ 2 && handle.getLast? ≠ some '!' then throw .directive
    let (_, after) ← tagSuffix (after.skipWhile isBlank)
    if !isGap after.peek then throw .directive
    return after
  else .ok (cursor.skipWhile (!isBreakOrEnd ·))

/-- A directive with its line. -/
def directive (cursor : Cursor) : Except Error Cursor := do
  let name := cursor.skip.taken isNameChar
  let after := cursor.skipMany (name.length + 1)
  if name = [] || !isGap after.peek then throw .directive
  let after ← directiveBody (String.ofList name) after
  let after := after.skipWhile isBlank
  let after := if after.peek = '#' then after.skipWhile (!isBreakOrEnd ·) else after
  if !isBreakOrEnd after.peek then throw .directive
  return if isBreak after.peek then after.skipBreak else after

/-! ## 4. The state between two tokens -/

/-- What may turn out to be a mapping key. -/
structure Candidate where
  start : Cursor
  /-- How many tokens stand before it. -/
  number : Nat
  /-- What stands in a flow collection, but as far to the left as the block around it, has to be a key. -/
  required : Bool

/-- Whether a candidate is given up at a place. -/
def Candidate.isStale (candidate : Candidate) (cursor : Cursor) : Bool :=
  candidate.start.line < cursor.line || candidate.start.index + 1024 < cursor.index

/-- What was read so far. -/
structure Scan where
  cursor : Cursor
  tokens : Array Token
  /-- The column of the innermost block collection, or -1. -/
  indent : Int
  /-- The columns around it. -/
  outer : List Int
  candidate : Option Candidate
  /-- The candidates around each open flow collection. -/
  enclosing : List (Option Candidate)
  /-- Whether a key may start here. -/
  keyAllowed : Bool
  /-- Where the last quoted scalar ended. A colon right after it needs no gap in a flow collection. -/
  quotedEnd : Nat

namespace Scan

def start (text : String) : Scan := ⟨Cursor.ofText text, #[], -1, [], none, [], true, 0⟩

/-- Whether a flow collection is open. -/
def inFlow (scan : Scan) : Bool := !scan.enclosing.isEmpty

/-- Adds a token and goes to the place after it. -/
def push (scan : Scan) (token : Token) (after : Cursor) : Scan :=
  { scan with tokens := scan.tokens.push token, cursor := after }

/-- Adds a token of `n` characters. -/
def pushMany (scan : Scan) (token : Token) (n : Nat) : Scan :=
  scan.push token (scan.cursor.skipMany n)

/-- Puts a token before the one that has the given number. -/
def insert (scan : Scan) (number : Nat) (token : Token) : Scan :=
  { scan with
    tokens := (scan.tokens.extract 0 number).push token
      ++ scan.tokens.extract number scan.tokens.size }

/-- Passes blanks, comments and line ends. A tab is no blank where a key may start in a block. -/
def skipGap (scan : Scan) : Nat → Scan
  | 0 => scan
  | fuel + 1 =>
    let c := scan.cursor.peek
    if c = ' ' || (c = '\t' && (scan.inFlow || !scan.keyAllowed)) then
      { scan with cursor := scan.cursor.skip }.skipGap fuel
    else if isBreak c then
      { scan with cursor := scan.cursor.skipBreak, keyAllowed := scan.keyAllowed || !scan.inFlow
        }.skipGap fuel
    else if c = '#' then
      { scan with cursor := scan.cursor.skipWhile (!isBreakOrEnd ·) }.skipGap fuel
    else scan

/-! ### Candidates -/

/-- Gives up the candidates that are too far away. -/
def dropStale (scan : Scan) : Except Error Scan :=
  let stale (candidate : Candidate) : Bool := candidate.isStale scan.cursor
  if (scan.candidate :: scan.enclosing).any (·.any fun c => c.required && stale c) then
    .error .missingColon
  else
    .ok { scan with
      candidate := scan.candidate.filter (!stale ·)
      enclosing := scan.enclosing.map (·.filter (!stale ·)) }

/-- Gives up the candidate of the innermost collection. -/
def dropCandidate (scan : Scan) : Except Error Scan :=
  if scan.candidate.any (·.required) then .error .missingColon
  else .ok { scan with candidate := none }

/-- What starts here may be a key, if one is allowed. -/
def addCandidate (scan : Scan) : Except Error Scan :=
  if scan.keyAllowed then do
    let required := scan.inFlow && scan.indent = scan.cursor.column
    let scan ← scan.dropCandidate
    return { scan with candidate := some ⟨scan.cursor, scan.tokens.size, required⟩ }
  else .ok scan

/-- Whether a key may start after the next token. -/
def allowKey (scan : Scan) (allowed : Bool) : Scan := { scan with keyAllowed := allowed }

/-! ### Indentation -/

/-- Starts a block collection at a deeper column, with a token of the given number. -/
def roll (scan : Scan) (column number : Nat) (token : Token) : Scan :=
  if scan.inFlow || scan.indent ≥ column then scan
  else
    { scan.insert number token with indent := (column : Int), outer := scan.indent :: scan.outer }

/-- Ends the block collections of the columns right of `column`. -/
def unrollFrom (column : Int) : Int → List Int → Array Token → Int × List Int × Array Token
  | indent, [], tokens => (indent, [], tokens)
  | indent, next :: outer, tokens =>
    if indent > column then unrollFrom column next outer (tokens.push .blockEnd)
    else (indent, next :: outer, tokens)

/-- Ends the block collections of the columns right of `column`, if no flow collection is open. -/
def unroll (scan : Scan) (column : Int) : Scan :=
  if scan.inFlow then scan
  else
    let (indent, outer, tokens) := unrollFrom column scan.indent scan.outer scan.tokens
    { scan with indent := indent, outer := outer, tokens := tokens }

/-! ## 5. The next token -/

/-- The mark before or after a document. -/
def mark (scan : Scan) (token : Token) : Except Error Scan := do
  let scan ← (scan.unroll (-1)).dropCandidate
  return (scan.pushMany token 3).allowKey false

def directiveLine (scan : Scan) : Except Error Scan := do
  let scan ← (scan.unroll (-1)).dropCandidate
  let after ← directive scan.cursor
  return (scan.push .directive after).allowKey false

/-- The bracket that opens a flow collection. At most 255 are open at once. -/
def openFlow (scan : Scan) (token : Token) : Except Error Scan := do
  let scan ← scan.addCandidate
  if scan.enclosing.length ≥ 255 then throw (.expected "fewer open brackets")
  let scan := { scan with candidate := none, enclosing := scan.candidate :: scan.enclosing }
  return (scan.pushMany token 1).allowKey true

/-- The bracket that closes a flow collection. -/
def closeFlow (scan : Scan) (token : Token) : Except Error Scan := do
  let scan ← scan.dropCandidate
  let scan := match scan.enclosing with
    | candidate :: enclosing => { scan with candidate := candidate, enclosing := enclosing }
    | [] => scan
  return (scan.pushMany token 1).allowKey false

/-- The comma of a flow collection. -/
def comma (scan : Scan) : Except Error Scan := do
  let scan ← scan.dropCandidate
  return (scan.pushMany .comma 1).allowKey true

/-- The dash of a block sequence. -/
def entry (scan : Scan) : Except Error Scan := do
  if scan.inFlow || !scan.keyAllowed then throw .entryPlace
  let scan ← (scan.roll scan.cursor.column scan.tokens.size .blockSequence).dropCandidate
  return (scan.pushMany .entry 1).allowKey true

/-- The question mark before a key. -/
def key (scan : Scan) : Except Error Scan := do
  if !scan.inFlow && !scan.keyAllowed then throw .keyPlace
  let scan ← (scan.roll scan.cursor.column scan.tokens.size .blockMapping).dropCandidate
  return (scan.pushMany .key 1).allowKey (!scan.inFlow)

/-- The colon before a value. It makes the candidate a key. -/
def value (scan : Scan) : Except Error Scan :=
  match scan.candidate with
  | some candidate =>
    let scan := { scan.insert candidate.number .key with candidate := none }
    let scan := scan.roll candidate.start.column candidate.number .blockMapping
    .ok ((scan.pushMany .value 1).allowKey false)
  | none =>
    if !scan.inFlow && !scan.keyAllowed then .error .valuePlace
    else
      let scan := scan.roll scan.cursor.column scan.tokens.size .blockMapping
      .ok ((scan.pushMany .value 1).allowKey (!scan.inFlow))

/-- An anchor or alias. -/
def anchor (scan : Scan) (token : String → Token) : Except Error Scan := do
  let scan ← scan.addCandidate
  let (name, after) ← anchorName scan.cursor.skip
  return (scan.push (token name) after).allowKey false

def tag (scan : Scan) : Except Error Scan := do
  let scan ← scan.addCandidate
  let (tag, after) ← Yaml.tag scan.cursor
  return (scan.push (.tag tag) after).allowKey false

/-- A scalar in quotes. -/
def quoted (scan : Scan) : Except Error Scan := do
  let scan ← scan.addCandidate
  let (text, after) ← Yaml.quoted scan.cursor
  let scan := { scan with quotedEnd := after.index }
  return (scan.push (.scalar (String.ofList text) false) after).allowKey false

/-- A block scalar. -/
def block (scan : Scan) : Except Error Scan := do
  let scan ← scan.addCandidate
  let (text, after) ← blockScalar scan.indent scan.cursor
  return (scan.push (.scalar (String.ofList text) false) after).allowKey true

/-- A plain scalar. -/
def plain (scan : Scan) : Except Error Scan := do
  let scan ← scan.addCandidate
  let read ← Yaml.plain scan.inFlow (scan.indent + 1).toNat scan.cursor
  return (scan.push (.scalar (String.ofList read.text) true) read.cursor).allowKey read.newLine

/-- Whether the colon here stands before a value, and not inside a plain scalar. -/
def atValue (scan : Scan) : Bool :=
  let next := scan.cursor.look 1
  isGap next || (scan.inFlow && (isFlow next || scan.cursor.index = scan.quotedEnd))

/-- The token that starts here. -/
def token (scan : Scan) : Except Error Scan :=
  let c := scan.cursor.peek
  let beforeGap := isGap (scan.cursor.look 1)
  if scan.cursor.column = 0 && c = '%' then scan.directiveLine
  else if scan.cursor.atMark '-' then scan.mark .documentStart
  else if scan.cursor.atMark '.' then scan.mark .documentEnd
  else if c = '[' then scan.openFlow .flowSequence
  else if c = '\x7b' then scan.openFlow .flowMapping
  else if c = ']' then scan.closeFlow .flowSequenceEnd
  else if c = '\x7d' then scan.closeFlow .flowMappingEnd
  else if c = ',' then scan.comma
  else if c = '-' && beforeGap then scan.entry
  else if c = '?' && beforeGap then scan.key
  else if c = ':' && scan.atValue then scan.value
  else if c = '*' then scan.anchor .alias
  else if c = '&' then scan.anchor .anchor
  else if c = '!' then scan.tag
  else if (c = '|' || c = '>') && !scan.inFlow then scan.block
  else if c = '\'' || c = '"' then scan.quoted
  else if c = '%' || c = '@' || c = '\x60' then .error (.character c)
  else scan.plain

/-- All tokens up to the end of the text. Each consists of at least one character. -/
def all (scan : Scan) : Nat → Except Error (Array Token)
  | 0 => .ok scan.tokens
  | fuel + 1 => do
    let scan ← (scan.skipGap scan.cursor.fuel).dropStale
    let scan := scan.unroll scan.cursor.column
    if isEnd scan.cursor.peek then return (← (scan.unroll (-1)).dropCandidate).tokens
    let scan ← scan.token
    scan.all fuel

end Scan

def tokens (text : String) : Except Error (List Token) := do
  let start := Scan.start text
  return (← start.all start.cursor.fuel).toList

end MockGraph.Yaml
