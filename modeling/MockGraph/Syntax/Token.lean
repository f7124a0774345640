import MockGraph.Text.Quoted

/-!
# `Syntax/Token`: the words of a GraphQL text

`Token.scan` cuts a text into punctuators, commas, names, numerals and strings, and drops what the
language ignores: blanks, line ends, byte order marks and comments. It is a fold of `Lexer.step` over
the characters, so scanning `a ++ b` is scanning `a` and going on with `b`.

Commas are ignored, too, but not in the four places where a reader looks one token ahead. So a
`Lexeme` is a token that is no comma, together with whether commas stand in front of it, and
`Lexeme.scan` is what a reader starts from.

Strings are stored by their meaning. A string between single quote marks has its escapes replaced;
a line end may stand in it as its very first character only. One between triple quote marks has its
common indentation and its blank first and last lines removed.
-/

set_option autoImplicit false

namespace MockGraph.Syntax

/-! ## 1. Tokens -/

/-- The punctuators of the language. -/
inductive Punctuator where
  | bang
  | dollar
  | ampersand
  | openParen
  | closeParen
  | ellipsis
  | colon
  | equals
  | atSign
  | openBracket
  | closeBracket
  | openBrace
  | pipe
  | closeBrace
  deriving DecidableEq

/-- The words of the language. -/
inductive Token where
  | punct (p : Punctuator)
  | comma
  | name (text : String)
  | int (numeral : String)
  | float (numeral : String)
  | string (value : String)
  | blockString (value : String)
  deriving DecidableEq

/-- A token that a reader meets, and whether commas stand right in front of it. -/
structure Lexeme where
  token : Token
  afterComma : Bool

/-- The punctuator that is a single character. -/
def Punctuator.ofChar? : Char → Option Punctuator
  | '!' => some .bang
  | '$' => some .dollar
  | '&' => some .ampersand
  | '(' => some .openParen
  | ')' => some .closeParen
  | ':' => some .colon
  | '=' => some .equals
  | '@' => some .atSign
  | '[' => some .openBracket
  | ']' => some .closeBracket
  | '\x7b' => some .openBrace
  | '|' => some .pipe
  | '\x7d' => some .closeBrace
  | _ => none

def Punctuator.text : Punctuator → String
  | .bang => "!"
  | .dollar => "$"
  | .ampersand => "&"
  | .openParen => "("
  | .closeParen => ")"
  | .ellipsis => "..."
  | .colon => ":"
  | .equals => "="
  | .atSign => "@"
  | .openBracket => "["
  | .closeBracket => "]"
  | .openBrace => "\x7b"
  | .pipe => "|"
  | .closeBrace => "\x7d"

/-- A token as it is named in a message. -/
def Token.describe : Token → String
  | .punct p => "\"" ++ p.text ++ "\""
  | .comma => "a comma"
  | .name text => "name \"" ++ text ++ "\""
  | .int numeral => "number " ++ numeral
  | .float numeral => "number " ++ numeral
  | .string _ => "a string"
  | .blockString _ => "a block string"

/-! ## 2. Causes of a syntax error -/

/-- Why a text is not in the language. -/
inductive SyntaxError where
  /-- A character that starts no token. -/
  | character (c : Char)
  /-- A numeral that is not well formed. -/
  | numeral (written : String)
  /-- A string or numeral that the text ends in. -/
  | unfinished
  /-- An escape that a string may not hold. -/
  | escape
  /-- Another token, or the end, where something had to stand. -/
  | expected (what : String) (found : Option Token)
  /-- A comma where the next token has to follow at once. -/
  | comma
  /-- More levels inside each other than a document may have. -/
  | tooDeep
  deriving DecidableEq

def SyntaxError.message : SyntaxError → String
  | .character c => "unexpected character " ++ Text.quote (String.ofList [c])
  | .numeral written => "malformed number " ++ written
  | .unfinished => "the text ends inside a string or number"
  | .escape => "malformed escape in a string"
  | .expected what none => "expected " ++ what ++ " before the end"
  | .expected what (some token) => "expected " ++ what ++ ", found " ++ token.describe
  | .comma => "a comma may not stand here"
  | .tooDeep => "the document is nested too deeply"

/-! ## 3. Characters -/

/-- The blanks that may stand between tokens; a byte order mark is among them. -/
def isIgnored (c : Char) : Bool :=
  c = ' ' || c = '\t' || c = '\n' || c = '\r' || c = '\ufeff'

/-- The characters that a name may start with. -/
def isNameStart (c : Char) : Bool := c.isAlpha || c = '_'

/-- The characters that a name consists of. -/
def isNameChar (c : Char) : Bool := c.isAlphanum || c = '_'

/-- The names of the language. -/
def isName (text : String) : Bool :=
  match text.toList with
  | [] => false
  | c :: cs => isNameStart c && cs.all isNameChar

/-! ## 4. Block strings -/

/-- The lines of a text, which end in a line feed, a carriage return or both. -/
def lines : List Char → List (List Char)
  | [] => [[]]
  | '\r' :: '\n' :: cs => [] :: lines cs
  | c :: cs =>
    if c = '\n' ∨ c = '\r' then [] :: lines cs
    else match lines cs with
      | [] => [[c]]
      | line :: rest => (c :: line) :: rest

/-- The two blanks that indentation consists of. -/
def isIndent (c : Char) : Bool := c = ' ' || c = '\t'

/-- The least indentation among lines that hold more than blanks. -/
def commonIndent (body : List (List Char)) : Nat :=
  let indents := (body.filter fun line => !line.all isIndent).map fun line =>
    (line.takeWhile isIndent).length
  (indents.min?).getD 0

/-- The meaning of a block string: without the indentation that all lines but the first share, and
without blank lines at either end. -/
def blockValue (raw : List Char) : List Char :=
  let dedented : List (List Char) := match lines raw with
    | [] => []
    | first :: rest => first :: rest.map (List.drop (commonIndent rest))
  let blank := fun line : List Char => line.all isIndent
  let kept := ((dedented.dropWhile blank).reverse.dropWhile blank).reverse
  (kept.intersperse ['\n']).flatten

/-! ## 5. The lexer -/

/-- How far a numeral has come. -/
inductive Lexer.Phase where
  | minus
  | zero
  | digits
  | point
  | fraction
  | exponentMark
  | exponentSign
  | exponent

/-- Quote marks and backslashes in a block string whose meaning is still open. -/
inductive Lexer.Pending where
  | nothing
  | quotes (count : Nat)
  | backslash (quotes : Nat)

/-- The part of a numeric escape that is next. -/
inductive Lexer.Code where
  /-- The first of four digits, or a brace. -/
  | opening
  /-- Digit `count` of four, counted from zero, after the leading half of a pair if there is one. -/
  | digit (lead? : Option Nat) (count value : Nat)
  /-- The backslash, and then the letter, of the trailing half of a pair. -/
  | trailing (lead : Nat) (backslash : Bool)
  /-- Another digit in braces, or the closing one once there is a digit. -/
  | braced (value? : Option Nat)

/-- Where the lexer stands. Collected characters are in reverse. -/
inductive Lexer.Mode where
  | between
  | comment
  | name (chars : List Char)
  | numeral (phase : Lexer.Phase) (chars : List Char)
  | dots (count : Nat)
  /-- After one quote mark. -/
  | quote
  /-- After two quote marks. -/
  | twoQuotes
  | text (chars : List Char)
  | escape (chars : List Char)
  | unicode (chars : List Char) (code : Lexer.Code)
  | block (chars : List Char) (pending : Lexer.Pending)

/-- The tokens so far, the last one first, and the mode. -/
structure Lexer where
  tokens : List Token
  mode : Lexer.Mode

namespace Lexer

/-- The first character of a token, or one that is ignored. -/
def start (tokens : List Token) (c : Char) : Except SyntaxError Lexer :=
  if isIgnored c then .ok ⟨tokens, .between⟩
  else if c = ',' then .ok ⟨.comma :: tokens, .between⟩
  else if c = '#' then .ok ⟨tokens, .comment⟩
  else if c = '"' then .ok ⟨tokens, .quote⟩
  else if c = '.' then .ok ⟨tokens, .dots 1⟩
  else if c = '-' then .ok ⟨tokens, .numeral .minus [c]⟩
  else if c = '0' then .ok ⟨tokens, .numeral .zero [c]⟩
  else if c.isDigit then .ok ⟨tokens, .numeral .digits [c]⟩
  else if isNameStart c then .ok ⟨tokens, .name [c]⟩
  else match Punctuator.ofChar? c with
    | some p => .ok ⟨.punct p :: tokens, .between⟩
    | none => .error (.character c)

/-- The phase after one more character of a numeral, if the numeral goes on with it. -/
def Phase.next? (phase : Phase) (c : Char) : Option Phase :=
  match phase with
  | .minus => if c = '0' then some .zero else if c.isDigit then some .digits else none
  | .zero =>
    if c = '.' then some .point else if c = 'e' ∨ c = 'E' then some .exponentMark else none
  | .digits =>
    if c.isDigit then some .digits
    else if c = '.' then some .point else if c = 'e' ∨ c = 'E' then some .exponentMark else none
  | .point => if c.isDigit then some .fraction else none
  | .fraction =>
    if c.isDigit then some .fraction else if c = 'e' ∨ c = 'E' then some .exponentMark else none
  | .exponentMark =>
    if c = '+' ∨ c = '-' then some .exponentSign else if c.isDigit then some .exponent else none
  | .exponentSign => if c.isDigit then some .exponent else none
  | .exponent => if c.isDigit then some .exponent else none

/-- The token of a numeral that may end in this phase. -/
def numeralToken (phase : Phase) (chars : List Char) : Except SyntaxError Token :=
  let written := String.ofList chars.reverse
  match phase with
  | .zero | .digits => .ok (.int written)
  | .fraction | .exponent => .ok (.float written)
  | _ => .error (.numeral written)

/-- A character after a numeral: neither a digit, a point nor a letter may touch it. -/
def afterNumeral (tokens : List Token) (phase : Phase) (chars : List Char) (c : Char) :
    Except SyntaxError Lexer :=
  if c.isDigit || c = '.' || isNameStart c then
    .error (.numeral (String.ofList (c :: chars).reverse))
  else do
    let token ← numeralToken phase chars
    start (token :: tokens) c

/-- A character of a block string once nothing is pending any more. -/
def blockChar (tokens : List Token) (chars : List Char) (c : Char) : Lexer :=
  if c = '"' then ⟨tokens, .block chars (.quotes 1)⟩
  else if c = '\\' then ⟨tokens, .block chars (.backslash 0)⟩
  else ⟨tokens, .block (c :: chars) .nothing⟩

/-- A character of a block string. Three quote marks end it, unless a backslash precedes them. -/
def blockStep (tokens : List Token) (chars : List Char) (pending : Pending) (c : Char) : Lexer :=
  let marks := fun count : Nat => List.replicate count '"'
  match pending with
  | .nothing => blockChar tokens chars c
  | .quotes count =>
    if c = '"' then
      if count < 2 then ⟨tokens, .block chars (.quotes (count + 1))⟩
      else ⟨.blockString (String.ofList (blockValue chars.reverse)) :: tokens, .between⟩
    else blockChar tokens (marks count ++ chars) c
  | .backslash quotes =>
    if c = '"' then
      if quotes < 2 then ⟨tokens, .block chars (.backslash (quotes + 1))⟩
      else ⟨tokens, .block (marks 3 ++ chars) .nothing⟩
    else blockChar tokens (marks quotes ++ '\\' :: chars) c

/-- A character of a string between single quote marks. -/
def textStep (tokens : List Token) (chars : List Char) (c : Char) : Except SyntaxError Lexer :=
  if c = '"' then .ok ⟨.string (String.ofList chars.reverse) :: tokens, .between⟩
  else if c = '\\' then .ok ⟨tokens, .escape chars⟩
  else if c = '\n' ∨ c = '\r' then .error .unfinished
  else .ok ⟨tokens, .text (c :: chars)⟩

/-- The character after the first quote mark: a second one, or the first of a string. -/
def quoteStep (tokens : List Token) (c : Char) : Except SyntaxError Lexer :=
  if c = '"' then .ok ⟨tokens, .twoQuotes⟩
  else if c = '\n' ∨ c = '\r' then .ok ⟨tokens, .text [c]⟩
  else textStep tokens [] c

/-- Goes on after an escape of the character with the number `value`, if there is one. -/
def endCode (tokens : List Token) (chars : List Char) (value : Nat) : Except SyntaxError Lexer :=
  if value.isValidChar then .ok ⟨tokens, .text (Char.ofNat value :: chars)⟩ else .error .escape

/-- The end of four digits. Two halves of a surrogate pair stand for one character together. -/
def endDigits (tokens : List Token) (chars : List Char) (lead? : Option Nat) (value : Nat) :
    Except SyntaxError Lexer :=
  match lead? with
  | some lead =>
    if 0xDC00 ≤ value ∧ value < 0xE000 then
      endCode tokens chars (0x10000 + 0x400 * (lead - 0xD800) + (value - 0xDC00))
    else .error .escape
  | none =>
    if 0xD800 ≤ value ∧ value < 0xDC00 then .ok ⟨tokens, .unicode chars (.trailing value false)⟩
    else endCode tokens chars value

/-- A character of a numeric escape: four digits, two times four for a pair, or any number of them in
braces. -/
def codeStep (tokens : List Token) (chars : List Char) (code : Code) (c : Char) :
    Except SyntaxError Lexer :=
  let go := fun code : Code => Except.ok ⟨tokens, .unicode chars code⟩
  match code, Text.hexValue? c with
  | .opening, some digit => go (.digit none 1 digit)
  | .opening, none => if c = '\x7b' then go (.braced none) else .error .escape
  | .digit lead? count value, some digit =>
    if count < 3 then go (.digit lead? (count + 1) (16 * value + digit))
    else endDigits tokens chars lead? (16 * value + digit)
  | .trailing lead false, _ => if c = '\\' then go (.trailing lead true) else .error .escape
  | .trailing lead true, _ => if c = 'u' then go (.digit (some lead) 0 0) else .error .escape
  | .braced value?, some digit => go (.braced (some (16 * value?.getD 0 + digit)))
  | .braced (some value), none => if c = '\x7d' then endCode tokens chars value else .error .escape
  | _, _ => .error .escape

/-- One character of a text. -/
def step (lexer : Lexer) (c : Char) : Except SyntaxError Lexer :=
  let tokens := lexer.tokens
  match lexer.mode with
  | .between => start tokens c
  | .comment => .ok ⟨tokens, if c = '\n' ∨ c = '\r' then .between else .comment⟩
  | .name chars =>
    if isNameChar c then .ok ⟨tokens, .name (c :: chars)⟩
    else start (.name (String.ofList chars.reverse) :: tokens) c
  | .numeral phase chars =>
    match phase.next? c with
    | some phase => .ok ⟨tokens, .numeral phase (c :: chars)⟩
    | none => afterNumeral tokens phase chars c
  | .dots count =>
    if c = '.' then
      if count < 2 then .ok ⟨tokens, .dots (count + 1)⟩
      else .ok ⟨.punct .ellipsis :: tokens, .between⟩
    else .error (.character '.')
  | .quote => quoteStep tokens c
  | .twoQuotes =>
    if c = '"' then .ok ⟨tokens, .block [] .nothing⟩ else start (.string "" :: tokens) c
  | .text chars => textStep tokens chars c
  | .escape chars =>
    if c = 'u' then .ok ⟨tokens, .unicode chars .opening⟩
    else match Text.unescape? c with
      | some e => .ok ⟨tokens, .text (e :: chars)⟩
      | none => .error .escape
  | .unicode chars code => codeStep tokens chars code c
  | .block chars pending => .ok (blockStep tokens chars pending c)

/-- The end of a text: a name, a numeral or a comment may still be open. -/
def finish (lexer : Lexer) : Except SyntaxError (List Token) :=
  let tokens := lexer.tokens
  match lexer.mode with
  | .between | .comment => .ok tokens.reverse
  | .name chars => .ok (Token.name (String.ofList chars.reverse) :: tokens).reverse
  | .numeral phase chars => do
    let token ← numeralToken phase chars
    return (token :: tokens).reverse
  | .twoQuotes => .ok (Token.string "" :: tokens).reverse
  | .dots _ => .error (.character '.')
  | _ => .error .unfinished

end Lexer

def Token.scan (text : String) : Except SyntaxError (List Token) := do
  let lexer ← text.toList.foldlM Lexer.step ⟨[], .between⟩
  lexer.finish

/-! ## 6. Lexemes -/

/-- The tokens without the commas, where `afterComma` tells of the token before the first. -/
def Lexeme.ofTokens (afterComma : Bool) : List Token → List Lexeme
  | [] => []
  | .comma :: rest => ofTokens true rest
  | token :: rest => ⟨token, afterComma⟩ :: ofTokens false rest

def Lexeme.scan (text : String) : Except SyntaxError (List Lexeme) :=
  (Token.scan text).map (ofTokens false)

end MockGraph.Syntax
