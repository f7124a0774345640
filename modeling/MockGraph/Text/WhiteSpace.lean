/-!
# `Text/WhiteSpace`: the Unicode property `White_Space`
-/

set_option autoImplicit false

namespace MockGraph.Text

/-- The ranges of code points that have the property `White_Space`. -/
def whiteSpaceRanges : List (Nat × Nat) :=
  [(0x9, 0xd), (0x20, 0x20), (0x85, 0x85), (0xa0, 0xa0), (0x1680, 0x1680), (0x2000, 0x200a),
    (0x2028, 0x2029), (0x202f, 0x202f), (0x205f, 0x205f), (0x3000, 0x3000)]

/-- Whether a character has the property `White_Space`. -/
def isWhiteSpace (c : Char) : Bool :=
  whiteSpaceRanges.any fun range => range.1 ≤ c.toNat && c.toNat ≤ range.2

/-- Whether a text is empty or blank. -/
def isBlankText (text : String) : Bool := text.toList.all isWhiteSpace

end MockGraph.Text
