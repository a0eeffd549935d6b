/-!
# Binary floating-point numbers as exact ratios

A finite 64-bit floating-point number is `± m · 2 ^ q`. `Binary.ofFloat?` reads this form off the
bits, and `Binary.nearest` goes back from any ratio of naturals to the closest number, ties to the
even significand. All arithmetic between the two is exact, on `Nat` and `Int`.
-/

namespace LiveScope

/-- The number `± significand · 2 ^ exponent`. -/
structure Binary where
  /-- Whether the sign bit is set. -/
  negative : Bool
  /-- The integral significand, below `2 ^ 53`. -/
  significand : Nat
  /-- The power of two that scales the significand, never below `-1074`. -/
  exponent : Int
deriving DecidableEq, Repr

namespace Binary

/-- The exponent of subnormal numbers, the least one. -/
def minExponent : Int := -1074

/-- The significand from which numbers are normal. -/
def normal : Nat := Nat.pow 2 52

/-- The exact form of a float, or `none` for infinities and NaN. -/
def ofFloat? (x : Float) : Option Binary :=
  let bits := x.toBits.toNat
  let negative := bits / Nat.pow 2 63 % 2 == 1
  let biased : Nat := bits / Nat.pow 2 52 % Nat.pow 2 11
  let fraction : Nat := bits % Nat.pow 2 52
  if biased = 2047 then none
  else if biased = 0 then some ⟨negative, fraction, minExponent⟩
  else some ⟨negative, normal + fraction, (biased : Int) - 1075⟩

/-- The float with the given sign, a significand below `2 ^ 53` and an exponent; an exponent that
is too large gives an infinity. -/
def toFloat (b : Binary) : Float :=
  let sign : Nat := if b.negative then Nat.pow 2 63 else 0
  let magnitude : Nat :=
    if b.significand < normal then b.significand
    else if 971 < b.exponent then 2047 * Nat.pow 2 52
    else (b.exponent + 1075).toNat * Nat.pow 2 52 + (b.significand - normal)
  Float.ofBits (UInt64.ofNat (sign + magnitude))

/-- The quotient `num / den` rounded to the nearest natural, ties to the even one. -/
def roundHalfEven (num den : Nat) : Nat :=
  let low := num / den
  let rest := num % den
  if 2 * rest < den then low
  else if den < 2 * rest then low + 1
  else low + low % 2

/-- `num / den` as a quotient of naturals scaled by `2 ^ (-exponent)`. -/
def scaled (num den : Nat) (exponent : Int) : Nat × Nat :=
  let power := Nat.pow 2 exponent.natAbs
  if exponent ≤ 0 then (num * power, den) else (num, den * power)

/-- The number nearest to `± num / den`, ties to the even significand. -/
def nearest (negative : Bool) (num den : Nat) : Binary :=
  if num = 0 then ⟨negative, 0, minExponent⟩
  else
    -- `num / den` lies between `2 ^ (guess + 52)` and `2 ^ (guess + 54)`
    let guess : Int := (num.log2 : Int) - den.log2 - 53
    let at53 : Int := max minExponent guess
    let (n, d) := scaled num den at53
    let exponent := if n / d < Nat.pow 2 53 then at53 else at53 + 1
    let (n, d) := scaled num den exponent
    let significand := roundHalfEven n d
    if significand = Nat.pow 2 53 then ⟨negative, normal, exponent + 1⟩
    else ⟨negative, significand, exponent⟩

/-- The float nearest to `± num / den`. -/
def ofRatio (negative : Bool) (num den : Nat) : Float := (nearest negative num den).toFloat

/-- The numerator and denominator of the magnitude. -/
def ratio (b : Binary) : Nat × Nat :=
  if 0 ≤ b.exponent then (b.significand * Nat.pow 2 b.exponent.natAbs, 1)
  else (b.significand, Nat.pow 2 b.exponent.natAbs)

/-- The magnitude as a natural, if it is integral. -/
def natural? (b : Binary) : Option Nat :=
  let (num, den) := b.ratio
  if num % den = 0 then some (num / den) else none

end Binary

end LiveScope
