import MockGraph.Json.Double

/-!
# `Json/Number`: the numbers of a JSON text

An integer that fits 64 bits, signed or unsigned, is kept as an integer; every other number is a
`Double`. A numeral with a fraction or an exponent is never an integer, and neither is `-0`, which
is the negative zero.

`Number.read?` reads a numeral of the strict JSON grammar and `Number.render` writes one. A double is
written by the decimal layout `Double.layout`: a point and at least one digit after it, or an
exponent where the plain form would be long.
-/

set_option autoImplicit false

namespace MockGraph

/-! ## 1. Numbers -/

/-- The integers that fit 64 bits, signed or unsigned: from `-2^63` up to, but without, `2^64`. -/
def Number.Fits (n : Int) : Prop := -9223372036854775808 ≤ n ∧ n < 18446744073709551616

instance (n : Int) : Decidable (Number.Fits n) := by
  unfold Number.Fits; infer_instance

/-- A JSON number. -/
inductive Number where
  | integer (value : Int) (fits : Number.Fits value)
  | double (value : Double)
  deriving DecidableEq

/-! ## 2. Writing -/

/-- Which decimal points are written out, and which turn into an exponent. -/
structure DecimalLayout where
  /-- The point may stand at most this many places left of the first digit. -/
  zerosBefore : Nat
  /-- The point may stand at most this many places right of the first digit. -/
  placesAfter : Nat

/-- Doubles are written out from four zeros after the point to sixteen places before it. -/
def Double.layout : DecimalLayout := ⟨4, 16⟩

/-- Drops the zeros at the end of a numeral that is not zero, counting them. -/
def stripZeros (digits : List Char) : List Char × Nat :=
  let zeros := digits.reverse.takeWhile (· = '0')
  ((digits.reverse.dropWhile (· = '0')).reverse, zeros.length)

/-- The decimal `0.digits · 10^point` in a layout. The digits neither start nor end with a zero. -/
def DecimalLayout.write (layout : DecimalLayout) (digits : List Char) (point : Int) : List Char :=
  let count : Int := digits.length
  if count ≤ point ∧ point ≤ layout.placesAfter then
    digits ++ List.replicate (point - count).toNat '0' ++ ['.', '0']
  else if 0 < point ∧ point ≤ layout.placesAfter then
    digits.take point.toNat ++ '.' :: digits.drop point.toNat
  else if -(layout.zerosBefore : Int) ≤ point ∧ point ≤ 0 then
    '0' :: '.' :: List.replicate point.natAbs '0' ++ digits
  else
    let fraction := digits.drop 1
    let power := point - 1
    digits.take 1 ++ (if fraction.isEmpty then [] else '.' :: fraction) ++ 'e' ::
      (if power < 0 then ['-'] else []) ++ Nat.toDigits 10 power.natAbs

/-- The shortest numeral that reads back as a double. -/
def Double.render (x : Double) : List Char :=
  let sign := if x.negative then ['-'] else []
  if x.mantissa = 0 then sign ++ ['0', '.', '0']
  else
    let (value, unit) := x.toDecimal
    let (digits, zeros) := stripZeros (Nat.toDigits 10 value)
    sign ++ Double.layout.write digits (unit + zeros + digits.length)

/-- The numeral of an integer. -/
def renderInt (n : Int) : List Char :=
  (if n < 0 then ['-'] else []) ++ Nat.toDigits 10 n.natAbs

/-- The numeral of a number. -/
def Number.render : Number → List Char
  | .integer n _ => renderInt n
  | .double x => x.render

/-! ## 3. Reading -/

/-- The value of a run of decimal digits. -/
def digitsValue (digits : List Char) : Nat :=
  digits.foldl (fun n c => 10 * n + (c.toNat - '0'.toNat)) 0

/-- Splits off the leading run of decimal digits. -/
def spanDigits (cs : List Char) : List Char × List Char :=
  (cs.takeWhile Char.isDigit, cs.dropWhile Char.isDigit)

/-- An unsigned numeral in parts: digits before the point, digits after it, exponent if written. -/
structure Numeral where
  whole : List Char
  fraction : Option (List Char)
  exponent : Option Int

/-- The digits of an exponent, with an optional sign, up to the end. -/
def readExponent? (cs : List Char) : Option Int :=
  let (negative, digits) : Bool × List Char :=
    match cs with
    | '-' :: ds => (true, ds)
    | '+' :: ds => (false, ds)
    | ds => (false, ds)
  if digits ≠ [] ∧ digits.all Char.isDigit then
    some (if negative then -(digitsValue digits : Int) else digitsValue digits)
  else none

/-- What may follow the digits before the exponent: nothing, or an exponent. -/
def Numeral.finish? (whole : List Char) (fraction : Option (List Char)) :
    List Char → Option Numeral
  | [] => some ⟨whole, fraction, none⟩
  | c :: cs => if c = 'e' ∨ c = 'E' then
      (readExponent? cs).map fun e => ⟨whole, fraction, some e⟩ else none

/-- Reads an unsigned numeral: no superfluous leading zero, and digits on both sides of a point. -/
def Numeral.read? (cs : List Char) : Option Numeral :=
  let (whole, rest) := spanDigits cs
  if whole = [] ∨ (whole.head? = some '0' ∧ whole.length ≠ 1) then none
  else match rest with
    | '.' :: rest =>
      let (fraction, rest) := spanDigits rest
      if fraction = [] then none else Numeral.finish? whole (some fraction) rest
    | rest => Numeral.finish? whole none rest

/-- The number that a signed numeral stands for; `none` when it is out of the range of doubles. -/
def Numeral.toNumber? (negative : Bool) (numeral : Numeral) : Option Number :=
  let fraction := numeral.fraction.getD []
  let digits := digitsValue (numeral.whole ++ fraction)
  let exponent := numeral.exponent.getD 0 - fraction.length
  let double := (Double.ofDecimal negative digits exponent).map Number.double
  if numeral.fraction.isSome ∨ numeral.exponent.isSome ∨ (negative ∧ digits = 0) then double
  else
    let value : Int := if negative then -(digits : Int) else digits
    if h : Number.Fits value then some (.integer value h) else double

/-- Reads a numeral of the JSON grammar. -/
def Number.read? (cs : List Char) : Option Number :=
  match cs with
  | '-' :: cs => (Numeral.read? cs).bind (Numeral.toNumber? true)
  | cs => (Numeral.read? cs).bind (Numeral.toNumber? false)

end MockGraph
