import MockGraph.Json.Number
import MockGraph.Yaml.Node

/-!
# `Yaml/Resolution`: which scalars are strings

A scalar that is quoted or has a tag of its own is a string. A plain one is a string unless it is
spelled like a null, a truth value or a number. A number that a double cannot hold, and one with
superfluous leading zeros, is spelled like a string.
-/

set_option autoImplicit false

namespace MockGraph.Yaml

/-! ## 1. Numbers -/

/-- Splits off a sign; `true` for a minus. -/
def splitSign : List Char → Bool × List Char
  | '-' :: rest => (true, rest)
  | '+' :: rest => (false, rest)
  | rest => (false, rest)

/-- The base that a letter after a zero asks for. -/
def radix? : Char → Option Nat
  | 'x' => some 16
  | 'o' => some 8
  | 'b' => some 2
  | _ => none

/-- The value of digits in a base; at least one is needed. -/
def radixValue? (base : Nat) (digits : List Char) : Option Nat := do
  let values ← digits.mapM Text.hexValue?
  if values = [] || values.any (base ≤ ·) then none
  return values.foldl (fun n digit => base * n + digit) 0

/-- Whether the characters are a number in base 16, 8 or 2 that fits 64 bits. -/
def isRadixNumber (cs : List Char) : Bool :=
  match splitSign cs with
  | (negative, '0' :: letter :: digits) =>
    let value? := (radix? letter).bind (radixValue? · digits)
    value?.any fun value => Number.Fits (if negative then -(value : Int) else value)
  | _ => false

/-- A decimal numeral; a point needs a digit on one side only. -/
def decimal? (cs : List Char) : Option Numeral :=
  let (whole, rest) := spanDigits cs
  match rest with
  | '.' :: rest =>
    let (fraction, rest) := spanDigits rest
    if whole = [] && fraction = [] then none else Numeral.finish? whole (some fraction) rest
  | rest => if whole = [] then none else Numeral.finish? whole none rest

/-- Whether the characters are digits after a superfluous zero. -/
def hasLeadingZero (cs : List Char) : Bool :=
  cs.length > 1 && cs.head? = some '0' && cs.all Char.isDigit

/-- Whether the characters are a decimal number that a double can hold. -/
def isDecimalNumber (cs : List Char) : Bool :=
  let (negative, cs) := splitSign cs
  !hasLeadingZero cs && ((decimal? cs).bind (Numeral.toNumber? negative)).isSome

/-- Whether a text is spelled like infinity or like no number at all. -/
def isSpecialNumber (text : String) : Bool :=
  let infinities := [".inf", ".Inf", ".INF"]
  infinities.any (fun name => [name, "+" ++ name, "-" ++ name].contains text)
    || [".nan", ".NaN", ".NAN"].contains text

/-! ## 2. Scalars -/

/-- Whether a plain text is spelled like a null. -/
def isNullText (text : String) : Bool := text = "~" || text = "null"

/-- Whether a plain text is no string. -/
def isTyped (text : String) : Bool :=
  isNullText text || text = "true" || text = "false" || isSpecialNumber text
    || isRadixNumber text.toList || isDecimalNumber text.toList

/-- Whether a tag is that of a type other than strings. -/
def Tag.isTyped (tag : Tag) : Bool :=
  tag.handle = "!!" && ["bool", "int", "float", "null"].contains tag.suffix

namespace Node

def string? : Node → Option String
  | .scalar text plain none => if plain && isTyped text then none else some text
  | .scalar text _ (some tag) => if tag.isTyped then none else some text
  | _ => none

/-- The characters of a scalar, whatever it stands for. -/
def text? : Node → Option String
  | .scalar text _ _ => some text
  | _ => none

/-- Whether an optional value is absent when this node is written for it. -/
def isAbsent : Node → Bool
  | .scalar text true none => text = "" || isNullText text
  | .scalar text true (some tag) => tag = ⟨"!!", "null"⟩ && isNullText text
  | _ => false

end Node

end MockGraph.Yaml
