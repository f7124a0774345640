import MockGraph.Text.Invisible

/-!
# `Text/Visible`: texts with every character visible

`Text.showVisibly` writes a text between quote marks such that a reader sees every character of it. A
character that has no glyph of its own, or that would merge with the one before it, is spelled by its
code point in hexadecimal digits.
-/

set_option autoImplicit false

namespace MockGraph.Text

def spellCodePoint (c : Char) : List Char :=
  ['\\', 'u', '\x7b'] ++ Nat.toDigits 16 c.toNat ++ ['\x7d']

/-- A character in a visible text. -/
def visibly (c : Char) : List Char :=
  match c with
  | '\x00' => ['\\', '0']
  | '\t' => ['\\', 't']
  | '\r' => ['\\', 'r']
  | '\n' => ['\\', 'n']
  | '"' => ['\\', '"']
  | '\\' => ['\\', '\\']
  | c => if isInvisible c then spellCodePoint c else [c]

/-- A text between quote marks with every character visible. -/
def showVisibly (text : String) : String :=
  String.ofList ('"' :: text.toList.flatMap visibly ++ ['"'])

end MockGraph.Text
