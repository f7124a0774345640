/-!
# `Json/Double`: finite binary floating point numbers, exactly

A `Double` is a sign, a mantissa below `2^53` and a binary exponent, in the one canonical form that
the 64 bit format has for each value. Nothing here uses machine floating point, so every operation
computes in the logic:

* `Double.ofRatio` rounds a quotient of naturals to the nearest double, ties to the even mantissa;
* `Double.ofDecimal` rounds a decimal `digits · 10^exponent` the same way;
* `Double.toDecimal` is the other direction: the decimal with the fewest digits that
  `Double.ofDecimal` reads back as the number it came from.
-/

set_option autoImplicit false

namespace MockGraph

/-! ## 1. The format -/

/-- The pairs of mantissa and exponent that stand for exactly one value each: full mantissas, and
short ones only at the lowest exponent. -/
def Double.Canonical (mantissa : Nat) (exponent : Int) : Prop :=
  mantissa < Nat.pow 2 53 ∧ -1074 ≤ exponent ∧ exponent ≤ 971 ∧
    (Nat.pow 2 52 ≤ mantissa ∨ exponent = -1074)

instance (mantissa : Nat) (exponent : Int) : Decidable (Double.Canonical mantissa exponent) := by
  unfold Double.Canonical; infer_instance

/-- The finite double `± mantissa · 2^exponent`. Both zeros are present. -/
structure Double where
  negative : Bool
  mantissa : Nat
  exponent : Int
  canonical : Double.Canonical mantissa exponent
  deriving DecidableEq

namespace Double

/-- The two zeros. -/
def zero (negative : Bool) : Double := ⟨negative, 0, -1074, by decide⟩

/-! ## 2. Rounding a quotient -/

/-- The integer nearest to `num / den`, a half going to the even neighbour. -/
def roundHalfEven (num den : Nat) : Nat :=
  let q := num / den
  let r := num % den
  if 2 * r < den then q else if den < 2 * r then q + 1 else q + q % 2

/-- The quotient `num / den` divided by `base^exponent`, again as a quotient. -/
def shiftRatio (base num den : Nat) (exponent : Int) : Nat × Nat :=
  let power := Nat.pow base exponent.natAbs
  if exponent < 0 then (num * power, den) else (num, den * power)

/-- The exponent at which `num / den` has a mantissa of 53 bits, but never below the lowest one. -/
def unitExponent (num den : Nat) : Int :=
  let guess : Int := (num.log2 : Int) - (den.log2 : Int) - 52
  let (a, b) := shiftRatio 2 num den guess
  max (-1074) (if a < Nat.pow 2 52 * b then guess - 1 else guess)

/-- The double nearest to `± num / den`, ties to even; `none` when it is too large to be finite. -/
def ofRatio (negative : Bool) (num den : Nat) : Option Double :=
  let exponent := unitExponent num den
  let (a, b) := shiftRatio 2 num den exponent
  let mantissa := roundHalfEven a b
  let (mantissa, exponent) :=
    if mantissa = Nat.pow 2 53 then (Nat.pow 2 52, exponent + 1) else (mantissa, exponent)
  if h : Canonical mantissa exponent then some ⟨negative, mantissa, exponent, h⟩ else none

/-! ## 3. Decimals -/

/-- How many decimal digits a natural number has; `0` has one. -/
def digitCount (n : Nat) : Nat := (Nat.toDigits 10 n).length

/-- Decimals of this many places before the point are infinite, and of this many zeros after it
vanish; both are well outside the range of a double. -/
def decimalRange : Int := 400

/-- The double nearest to `± digits · 10^exponent`; `none` when it is too large to be finite. -/
def ofDecimal (negative : Bool) (digits : Nat) (exponent : Int) : Option Double :=
  let place : Int := digitCount digits + exponent
  if digits = 0 then some (zero negative)
  else if decimalRange < place then none
  else if place < -decimalRange then some (zero negative)
  else
    let (num, den) := shiftRatio 10 digits 1 (-exponent)
    ofRatio negative num den

/-- The magnitude of a double as a quotient. -/
def ratio (x : Double) : Nat × Nat := shiftRatio 2 x.mantissa 1 (-x.exponent)

/-- The exponent of the leading decimal digit of `num / den`, for a positive `num`. -/
def leadingPlace (num den : Nat) : Int :=
  let guess : Int := (digitCount num : Int) - digitCount den
  let (a, b) := shiftRatio 10 num den guess
  if b ≤ a then guess else guess - 1

/-- The two multiples of `10^unit` around `num / den`, the nearer first, the even one on a tie. -/
def neighbours (num den : Nat) (unit : Int) : List Nat :=
  let (a, b) := shiftRatio 10 num den unit
  let low := a / b
  if roundHalfEven a b = low then [low, low + 1] else [low + 1, low]

/-- The first neighbour on the grid `10^unit` that reads back as `x`. -/
def readsBackOn (x : Double) (unit : Int) : Option (Nat × Int) :=
  let (num, den) := x.ratio
  ((neighbours num den unit).find? fun digits => ofDecimal x.negative digits unit == some x).map
    (·, unit)

/-- The decimal that equals the magnitude of a double, digit for digit. -/
def exactDecimal (x : Double) : Nat × Int :=
  if x.exponent < 0 then (x.mantissa * Nat.pow 5 x.exponent.natAbs, x.exponent)
  else (x.mantissa * Nat.pow 2 x.exponent.natAbs, 0)

/-- The magnitude of a double as the decimal with the fewest significant digits that reads back.
Seventeen digits always suffice. -/
def toDecimal (x : Double) : Nat × Int :=
  if x.mantissa = 0 then (0, 0)
  else
    let (num, den) := x.ratio
    let place := leadingPlace num den
    let search := (List.range 17).findSome? fun (extra : Nat) => x.readsBackOn (place - extra)
    search.getD x.exactDecimal

end Double

end MockGraph
