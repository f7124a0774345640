import MockGraph.Json.Basic
import MockGraph.Text.Quoted

/-!
# `Json/Reader`: reading strict JSON

A text is read in two passes, and each is a fold of a transition over its input, so that reading
`a ++ b` is reading `a` and going on with `b`.

* `Lexer.step` takes one character; `Token.scan?` runs it over a text.
* `Builder.step` takes one token; `Spelled.ofTokens?` runs it over all of them and keeps the open
  containers on a stack. Containers may be nested `nestingLimit` deep.

The result is a `Spelled` value: it still has every member of an object, repeated keys included, and
each string knows whether it was written without escapes. `Spelled.value` is the JSON value that it
stands for, in which the last of several members with one key wins.
-/

set_option autoImplicit false

namespace MockGraph

/-! ## 1. Values as they are spelled -/

/-- A JSON value with the details of its spelling that a `Json` forgets. -/
inductive Spelled where
  | null
  | bool (value : Bool)
  | number (value : Number)
  | string (value : String) (plain : Bool)
  | array (items : List Spelled)
  | object (members : List (String × Spelled))

mutual

/-- The value that a spelling stands for. -/
def Spelled.value : Spelled → Json
  | .null => .null
  | .bool b => .bool b
  | .number n => .number n
  | .string s _ => .string s
  | .array items => .array (Spelled.values items)
  | .object members => .object (Spelled.collect [] members)

/-- The values of the items of an array. -/
def Spelled.values : List Spelled → List Json
  | [] => []
  | item :: rest => item.value :: Spelled.values rest

/-- Inserts members into an object, one after the other. -/
def Spelled.collect (acc : Json.Object) : List (String × Spelled) → Json.Object
  | [] => acc
  | (key, member) :: rest => Spelled.collect (acc.insert key member.value) rest

end

namespace Json

/-! ## 2. Tokens -/

/-- The words of a JSON text. -/
inductive Token where
  | openArray
  | closeArray
  | openObject
  | closeObject
  | comma
  | colon
  | null
  | bool (value : Bool)
  | number (value : Number)
  | string (value : String) (plain : Bool)

/-- Where the lexer stands. Collected characters are in reverse. -/
inductive Lexer.Mode where
  /-- Between two tokens. -/
  | between
  /-- In a word of letters. -/
  | word (chars : List Char)
  /-- In a numeral. -/
  | numeral (chars : List Char)
  /-- In a string; `plain` while it has no escape. -/
  | text (chars : List Char) (plain : Bool)
  /-- After a backslash. -/
  | escape (chars : List Char)
  /-- In a four digit escape that has `count` digits so far; `lead` is the first half of a pair. -/
  | unicode (chars : List Char) (lead : Option Nat) (count value : Nat)
  /-- After the first half of a pair, where a backslash has to follow. -/
  | pair (chars : List Char) (lead : Nat)
  /-- After the first half of a pair and a backslash. -/
  | pairEscape (chars : List Char) (lead : Nat)

/-- The tokens so far, the last one first, and the mode. -/
structure Lexer where
  tokens : List Token
  mode : Lexer.Mode

namespace Lexer

/-- The four characters that may stand between tokens. -/
def isBlank (c : Char) : Bool := c = ' ' || c = '\t' || c = '\n' || c = '\r'

/-- The characters of which numerals consist. -/
def isNumeral (c : Char) : Bool :=
  c.isDigit || c = '-' || c = '+' || c = '.' || c = 'e' || c = 'E'

/-- The token of a word of letters. -/
def wordToken? (chars : List Char) : Option Token :=
  match String.ofList chars.reverse with
  | "null" => some .null
  | "true" => some (.bool true)
  | "false" => some (.bool false)
  | _ => none

/-- The first character of a token, or a blank. -/
def start (tokens : List Token) (c : Char) : Option Lexer :=
  if isBlank c then some ⟨tokens, .between⟩
  else match c with
    | '[' => some ⟨.openArray :: tokens, .between⟩
    | ']' => some ⟨.closeArray :: tokens, .between⟩
    | '\x7b' => some ⟨.openObject :: tokens, .between⟩
    | '\x7d' => some ⟨.closeObject :: tokens, .between⟩
    | ',' => some ⟨.comma :: tokens, .between⟩
    | ':' => some ⟨.colon :: tokens, .between⟩
    | '"' => some ⟨tokens, .text [] true⟩
    | c =>
      if c = '-' || c.isDigit then some ⟨tokens, .numeral [c]⟩
      else if c.isLower then some ⟨tokens, .word [c]⟩
      else none

/-- A finished four digit escape: a character, the first half of a pair, or its second half. -/
def endUnicode (tokens : List Token) (chars : List Char) (lead : Option Nat) (value : Nat) :
    Option Lexer :=
  let low := 0xDC00 ≤ value ∧ value ≤ 0xDFFF
  match lead with
  | some high =>
    if low then
      let c := Char.ofNat (0x10000 + (high - 0xD800) * 0x400 + (value - 0xDC00))
      some ⟨tokens, .text (c :: chars) false⟩
    else none
  | none =>
    if low then none
    else if 0xD800 ≤ value ∧ value ≤ 0xDBFF then some ⟨tokens, .pair chars value⟩
    else some ⟨tokens, .text (Char.ofNat value :: chars) false⟩

/-- One character of a text. -/
def step (lexer : Lexer) (c : Char) : Option Lexer :=
  let tokens := lexer.tokens
  match lexer.mode with
  | .between => start tokens c
  | .word chars =>
    if c.isLower then some ⟨tokens, .word (c :: chars)⟩
    else (wordToken? chars).bind fun token => start (token :: tokens) c
  | .numeral chars =>
    if isNumeral c then some ⟨tokens, .numeral (c :: chars)⟩
    else (Number.read? chars.reverse).bind fun n => start (.number n :: tokens) c
  | .text chars plain =>
    if c = '"' then some ⟨.string (String.ofList chars.reverse) plain :: tokens, .between⟩
    else if c = '\\' then some ⟨tokens, .escape chars⟩
    else if c < ' ' then none
    else some ⟨tokens, .text (c :: chars) plain⟩
  | .escape chars =>
    if c = 'u' then some ⟨tokens, .unicode chars none 0 0⟩
    else (Text.unescape? c).map fun e => ⟨tokens, .text (e :: chars) false⟩
  | .unicode chars lead count value =>
    (Text.hexValue? c).bind fun digit =>
      if count < 3 then some ⟨tokens, .unicode chars lead (count + 1) (16 * value + digit)⟩
      else endUnicode tokens chars lead (16 * value + digit)
  | .pair chars lead => if c = '\\' then some ⟨tokens, .pairEscape chars lead⟩ else none
  | .pairEscape chars lead => if c = 'u' then some ⟨tokens, .unicode chars (some lead) 0 0⟩ else none

/-- The end of a text: a word or numeral may still be open, a string may not. -/
def finish (lexer : Lexer) : Option (List Token) :=
  match lexer.mode with
  | .between => some lexer.tokens.reverse
  | .word chars => (wordToken? chars).map fun token => (token :: lexer.tokens).reverse
  | .numeral chars => (Number.read? chars.reverse).map fun n => (.number n :: lexer.tokens).reverse
  | _ => none

end Lexer

def Token.scan? (text : List Char) : Option (List Token) :=
  (text.foldlM Lexer.step ⟨[], .between⟩).bind Lexer.finish

/-! ## 3. Values from tokens -/

/-- A container that waits for the value it is being given; what it has so far is in reverse. -/
inductive Builder.Frame where
  | array (items : List Spelled)
  | object (members : List (String × Spelled)) (key : String)

/-- What may come next, inside the open containers from the innermost outwards. -/
inductive Builder where
  /-- A value. -/
  | value (stack : List Builder.Frame)
  /-- The first item of the array just opened, or its end. -/
  | item (stack : List Builder.Frame)
  /-- A key; the end of the object too, if it was just opened. -/
  | key (members : List (String × Spelled)) (first : Bool) (stack : List Builder.Frame)
  /-- The colon after a key. -/
  | colon (members : List (String × Spelled)) (key : String) (stack : List Builder.Frame)
  /-- What follows a finished value. -/
  | after (value : Spelled) (stack : List Builder.Frame)

namespace Builder

/-- How deep containers may be nested. -/
def nestingLimit : Nat := 127

/-- The first token of a value. -/
def start (stack : List Frame) : Token → Option Builder
  | .null => some (.after .null stack)
  | .bool b => some (.after (.bool b) stack)
  | .number n => some (.after (.number n) stack)
  | .string s plain => some (.after (.string s plain) stack)
  | .openArray => if stack.length < nestingLimit then some (.item stack) else none
  | .openObject => if stack.length < nestingLimit then some (.key [] true stack) else none
  | _ => none

def step : Builder → Token → Option Builder
  | .value stack, token => start stack token
  | .item stack, .closeArray => some (.after (.array []) stack)
  | .item stack, token => start (.array [] :: stack) token
  | .key _ true stack, .closeObject => some (.after (.object []) stack)
  | .key members _ stack, .string name _ => some (.colon members name stack)
  | .colon members name stack, .colon => some (.value (.object members name :: stack))
  | .after v (.array items :: stack), .comma => some (.value (.array (v :: items) :: stack))
  | .after v (.array items :: stack), .closeArray =>
    some (.after (.array (v :: items).reverse) stack)
  | .after v (.object members name :: stack), .comma =>
    some (.key ((name, v) :: members) false stack)
  | .after v (.object members name :: stack), .closeObject =>
    some (.after (.object ((name, v) :: members).reverse) stack)
  | _, _ => none

end Builder

end Json

/-- The one value that a list of tokens spells. -/
def Spelled.ofTokens? (tokens : List Json.Token) : Option Spelled :=
  match tokens.foldlM Json.Builder.step (.value []) with
  | some (.after v []) => some v
  | _ => none

/-- Reads a text that holds one value and nothing else. -/
def Spelled.parse? (text : String) : Option Spelled :=
  (Json.Token.scan? text.toList).bind Spelled.ofTokens?

/-- The value of a text that holds one value and nothing else. -/
def Json.parse? (text : String) : Option Json := (Spelled.parse? text).map Spelled.value

end MockGraph
