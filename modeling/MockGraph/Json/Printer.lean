import MockGraph.Json.Basic
import MockGraph.Text.Quoted

/-!
# `Json/Printer`: writing JSON

`Json.compact` writes a value without blanks. `Json.pretty` puts every item and member on a line of
its own, indented by two blanks for each level; empty containers stay on one line. Both keep the
order of members and write all characters from the blank on as they are.
-/

set_option autoImplicit false

namespace MockGraph.Json

/-! ## 1. On one line -/

mutual

/-- A value without blanks. -/
def compact : Json → String
  | .null => "null"
  | .bool b => if b then "true" else "false"
  | .number n => String.ofList n.render
  | .string s => Text.quote s
  | .array items => "[" ++ compactItems items ++ "]"
  | .object members => "\x7b" ++ compactMembers members ++ "\x7d"

/-- Items with commas between them. -/
def compactItems : List Json → String
  | [] => ""
  | [item] => compact item
  | item :: rest => compact item ++ "," ++ compactItems rest

/-- Members with commas between them. -/
def compactMembers : List (String × Json) → String
  | [] => ""
  | [(key, member)] => Text.quote key ++ ":" ++ compact member
  | (key, member) :: rest => Text.quote key ++ ":" ++ compact member ++ "," ++ compactMembers rest

end

/-! ## 2. On many lines -/

/-- The start of a line inside `level` containers. -/
def newLine (level : Nat) : String := "\n" ++ String.ofList (List.replicate (2 * level) ' ')

mutual

/-- A value inside `level` containers. -/
def prettyAt (level : Nat) : Json → String
  | .array (item :: rest) =>
    "[" ++ prettyItems (level + 1) (item :: rest) ++ newLine level ++ "]"
  | .object (member :: rest) =>
    "\x7b" ++ prettyMembers (level + 1) (member :: rest) ++ newLine level ++ "\x7d"
  | .array [] => "[]"
  | .object [] => "\x7b\x7d"
  | .null => "null"
  | .bool b => if b then "true" else "false"
  | .number n => String.ofList n.render
  | .string s => Text.quote s

/-- Items, each on a line of its own. -/
def prettyItems (level : Nat) : List Json → String
  | [] => ""
  | [item] => newLine level ++ prettyAt level item
  | item :: rest => newLine level ++ prettyAt level item ++ "," ++ prettyItems level rest

/-- Members, each on a line of its own. -/
def prettyMembers (level : Nat) : List (String × Json) → String
  | [] => ""
  | [(key, member)] => newLine level ++ Text.quote key ++ ": " ++ prettyAt level member
  | (key, member) :: rest =>
    newLine level ++ Text.quote key ++ ": " ++ prettyAt level member ++ "," ++
      prettyMembers level rest

end

/-- A value on many lines. -/
def pretty (value : Json) : String := prettyAt 0 value

end MockGraph.Json
