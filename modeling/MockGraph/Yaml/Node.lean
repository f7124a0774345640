import MockGraph.Yaml.Token

/-!
# `Yaml/Node`: the document of a YAML text

A text holds one document, which is a tree of scalars, sequences and mappings. An alias stands for the
node under its anchor and is replaced by it; a collection that holds an alias of itself would be
infinite, so that one place keeps a mark instead.

The readers of collections take the reader of their items as a parameter. Only `node` recurses into
itself, and its bound is the number of tokens.
-/

set_option autoImplicit false

namespace MockGraph.Yaml

/-! ## 1. Nodes -/

/-- A YAML value. A scalar keeps what decides its meaning: its style and its tag. -/
inductive Node where
  | scalar (text : String) (plain : Bool) (tag : Option Tag)
  | sequence (items : List Node)
  | mapping (entries : List (Node × Node))
  /-- A collection that is still open here. -/
  | cycle

/-- The node where nothing is written. -/
def Node.empty : Node := .scalar "~" true none

/-! ## 2. Reading tokens -/

/-- What is left to read, and the anchors so far. An anchor may be set anew, so each has a number. -/
structure Reading where
  tokens : List Token
  anchors : List (String × Nat)
  nodes : List (Nat × Node)

/-- A reader of tokens. -/
abbrev Reader := StateT Reading (Except Error)

namespace Reader

/-- The next token. -/
def peek? : Reader (Option Token) := return (← get).tokens.head?

/-- Passes the next token. -/
def skip : Reader Unit := modify fun reading => { reading with tokens := reading.tokens.drop 1 }

/-- Whether the next token is one of these. -/
def at? (tokens : List Token) : Reader Bool := return (← peek?).any tokens.contains

/-- Passes the next token if it is the given one. -/
def take? (token : Token) : Reader Bool := do
  let found ← at? [token]
  if found then skip
  return found

/-- A number of rounds that passes over everything that is left. -/
def rounds : Reader Nat := return (← get).tokens.length + 1

/-! ### Anchors -/

/-- Sets an anchor and gives its number. -/
def setAnchor (name : String) : Reader Nat := do
  let reading ← get
  let number := reading.anchors.length
  set { reading with anchors := (name, number) :: reading.anchors }
  return number

/-- Puts a node under an anchor. -/
def bind (anchor : Option Nat) (node : Node) : Reader Node := do
  if let some number := anchor then
    modify fun reading => { reading with nodes := (number, node) :: reading.nodes }
  return node

/-- The node under the last anchor of a name. -/
def resolve (name : String) : Reader Node := do
  let reading ← get
  match reading.anchors.lookup name with
  | none => throw (.unknownAnchor name)
  | some number => return (reading.nodes.lookup number).getD .cycle

/-- The tag and the anchor before a node, in either order. -/
def properties : Reader (Option Tag × Option Nat) := do
  match ← peek? with
  | some (.anchor name) =>
    skip
    let number ← setAnchor name
    match ← peek? with
    | some (.tag tag) => skip; return (some tag, some number)
    | _ => return (none, some number)
  | some (.tag tag) =>
    skip
    match ← peek? with
    | some (.anchor name) => skip; return (some tag, some (← setAnchor name))
    | _ => return (some tag, none)
  | _ => return (none, none)

/-! ## 3. Collections -/

/-- A node, unless one of the given tokens shows that nothing is written. -/
def nodeOr (stops : List Token) (node : Reader Node) : Reader Node := do
  if ← at? stops then return .empty else node

/-- The value after a key, if there is a colon. -/
def valueOr (stops : List Token) (node : Reader Node) : Reader Node := do
  if ← take? .value then nodeOr stops node else return .empty

/-- The items of a block sequence up to its end. -/
def blockItems (node : Reader Node) : Nat → Reader (List Node)
  | 0 => return []
  | rounds + 1 => do
    if ← take? .blockEnd then return []
    if !(← take? .entry) then throw (.expected "a dash")
    let item ← nodeOr [.entry, .blockEnd] node
    return item :: (← blockItems node rounds)

/-- The items of a block sequence that is indented like the mapping around it. -/
def levelItems (node : Reader Node) : Nat → Reader (List Node)
  | 0 => return []
  | rounds + 1 => do
    if !(← take? .entry) then return []
    let item ← nodeOr [.entry, .key, .value, .blockEnd] node
    return item :: (← levelItems node rounds)

/-- The entries of a block mapping up to its end. -/
def blockEntries (node : Reader Node) : Nat → Reader (List (Node × Node))
  | 0 => return []
  | rounds + 1 => do
    if ← take? .blockEnd then return []
    let stops := [.key, .value, .blockEnd]
    let key ← if ← take? .key then nodeOr stops node
      else if ← at? [.value] then pure .empty
      else throw (.expected "a key")
    let value ← valueOr stops node
    return (key, value) :: (← blockEntries node rounds)

/-- The comma before an item of a flow collection that is not the first. -/
def separator (first : Bool) : Reader Unit := do
  if first then return
  if !(← take? .comma) then throw (.expected "a comma")

/-- A single entry that stands for a mapping in a flow sequence, after the token of its key. -/
def singleEntry (node : Reader Node) : Reader Node := do
  let key ← if ← at? [.value, .comma, .flowSequenceEnd] then do skip; pure .empty else node
  let value ← valueOr [.comma, .flowSequenceEnd] node
  return .mapping [(key, value)]

/-- The items of a flow sequence up to its end. -/
def flowItems (node : Reader Node) (first : Bool) : Nat → Reader (List Node)
  | 0 => return []
  | rounds + 1 => do
    if ← take? .flowSequenceEnd then return []
    separator first
    if ← take? .flowSequenceEnd then return []
    let item ← if ← take? .key then singleEntry node else node
    return item :: (← flowItems node false rounds)

/-- An entry of a flow mapping. A key without a colon has an empty value. -/
def flowEntry (node : Reader Node) : Reader (Node × Node) := do
  let stops := [.comma, .flowMappingEnd]
  if ← take? .key then
    let key ← nodeOr (.value :: stops) node
    return (key, ← valueOr stops node)
  else if ← at? [.value] then return (.empty, ← valueOr stops node)
  else return (← node, .empty)

/-- The entries of a flow mapping up to its end. -/
def flowEntries (node : Reader Node) (first : Bool) : Nat → Reader (List (Node × Node))
  | 0 => return []
  | rounds + 1 => do
    if ← take? .flowMappingEnd then return []
    separator first
    if ← take? .flowMappingEnd then return []
    let entry ← flowEntry node
    return entry :: (← flowEntries node false rounds)

/-! ## 4. Nodes and documents -/

/-- Where a node stands. -/
inductive Position where
  /-- In a flow collection: no block collection may start. -/
  | flow
  | block
  /-- At a key or value of a block mapping: a sequence may be indented like the mapping. -/
  | mapped
  deriving DecidableEq

/-- What follows the properties of a node. A node that has properties may be empty. -/
def content (node : Position → Reader Node) (position : Position) (tag : Option Tag)
    (empty : Bool) : Reader Node := do
  let rounds ← rounds
  match ← peek? with
  | some (.scalar text plain) => skip; return .scalar text plain tag
  | some .flowSequence => skip; return .sequence (← flowItems (node .flow) true rounds)
  | some .flowMapping => skip; return .mapping (← flowEntries (node .flow) true rounds)
  | next =>
    if next = some .entry && position = .mapped then
      return .sequence (← levelItems (node .block) rounds)
    else if next = some .blockSequence && position != .flow then
      skip; return .sequence (← blockItems (node .block) rounds)
    else if next = some .blockMapping && position != .flow then
      skip; return .mapping (← blockEntries (node .mapped) rounds)
    else if empty then return .scalar "" true tag
    else throw (.expected "a node")

/-- A node of at most the given depth. -/
def node : Nat → Position → Reader Node
  | 0, _ => throw (.expected "fewer nodes")
  | depth + 1, position => do
    match ← peek? with
    | some (.alias name) => skip; resolve name
    | _ =>
      let (tag, anchor) ← properties
      let found ← content (node depth) position tag (tag.isSome || anchor.isSome)
      bind anchor found

/-- The document at the start of the tokens. -/
def document : Reader Node := do
  let explicit ← at? [.directive, .documentStart]
  modify fun reading => { reading with tokens := reading.tokens.dropWhile (· = .directive) }
  if explicit then
    if !(← take? .documentStart) then throw (.expected "the start of a document")
    let next ← peek?
    if [none, some .directive, some .documentStart, some .documentEnd].contains next then
      return .empty
  node (← rounds) .block

end Reader

/-- The document of a text that holds exactly one. -/
def Node.parse (text : String) : Except Error Node := do
  let tokens ← tokens text
  if tokens = [] then throw .noDocument
  let (node, reading) ← Reader.document.run ⟨tokens, [], []⟩
  if reading.tokens.any (· ≠ .documentEnd) then throw .severalDocuments
  return node

end MockGraph.Yaml
