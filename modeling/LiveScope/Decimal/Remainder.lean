import LiveScope.Decimal.Binary

/-!
# The remainder of truncated division

`Binary.remainder` is the exact remainder of dividing toward zero: it is smaller than the divisor
and has the sign of the dividend, so it is again a number and nothing is rounded.
-/

namespace LiveScope

/-- The remainder of `a` by a nonzero `b`, both taken to the smaller of their exponents. -/
def Binary.remainder (a b : Binary) : Binary :=
  let low := min a.exponent b.exponent
  let n := a.significand * Nat.pow 2 (a.exponent - low).natAbs
  let d := b.significand * Nat.pow 2 (b.exponent - low).natAbs
  let r := n % d
  if 0 ≤ low then Binary.nearest a.negative (r * Nat.pow 2 low.natAbs) 1
  else Binary.nearest a.negative r (Nat.pow 2 low.natAbs)

/-- The remainder of truncated division of floats. A zero divisor or an infinite dividend has
none; an infinite divisor leaves the dividend as it is. -/
def Binary.floatRemainder (x y : Float) : Float :=
  match Binary.ofFloat? x, Binary.ofFloat? y with
  | some a, some b => if b.significand = 0 then 0.0 / 0.0 else (a.remainder b).toFloat
  | some _, none => if y.isNaN then y else x
  | none, _ => 0.0 / 0.0

end LiveScope
