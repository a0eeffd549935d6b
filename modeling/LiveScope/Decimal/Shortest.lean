import LiveScope.Decimal.Binary

/-!
# Shortest decimals

`Binary.shortest` finds the decimal with the fewest digits that reads back to a given binary
number. A decimal reads back when it lies in the interval of reals that round to the number; the
ends belong to the interval exactly when the significand is even. On the grid of decimals with a
given count of digits only the number's two neighbours can be the closest hit, so the search tests
these two on finer and finer grids, in exact arithmetic.
-/

namespace LiveScope

/-- The decimal `coefficient · 10 ^ exponent`. -/
structure Scientific where
  /-- The digits, read as one natural. -/
  coefficient : Nat
  /-- The power of ten of the last digit. -/
  exponent : Int
deriving DecidableEq, Repr

/-- Which of two decimals is taken when a number lies half way between them. -/
inductive Tie where
  /-- The larger one. -/
  | up
  /-- The one whose last digit is even. -/
  | even
deriving DecidableEq, Repr

/-- Drops up to `fuel` zeros at the end of the digits. -/
def Scientific.strip : Nat → Scientific → Scientific
  | 0, s => s
  | fuel + 1, s =>
    if s.coefficient % 10 = 0 ∧ s.coefficient ≠ 0 then
      Scientific.strip fuel ⟨s.coefficient / 10, s.exponent + 1⟩
    else s

namespace Binary

/-- The reals that round to a number, in quarter units of its last place: the ends, and whether
they belong to the interval. Below a power of two the neighbour is half as far. -/
structure Interval where
  /-- Four times the significand. -/
  value : Nat
  /-- The lower end. -/
  low : Nat
  /-- The upper end. -/
  high : Nat
  /-- Whether the ends round to the number too. -/
  closed : Bool
  /-- The denominator of a quarter unit. -/
  den : Nat
  /-- The numerator of a quarter unit. -/
  num : Nat

/-- The interval of reals that round to `b`. -/
def interval (b : Binary) : Interval :=
  let quarter := b.exponent - 2
  let below := if b.significand = normal ∧ minExponent < b.exponent then 1 else 2
  { value := 4 * b.significand
    low := 4 * b.significand - below
    high := 4 * b.significand + 2
    closed := b.significand % 2 = 0
    num := if 0 ≤ quarter then Nat.pow 2 quarter.natAbs else 1
    den := if 0 ≤ quarter then 1 else Nat.pow 2 quarter.natAbs }

/-- Whether the decimal `c · 10 ^ e` lies in the interval. -/
def Interval.holds (i : Interval) (c : Nat) (e : Int) : Bool :=
  let decimal := if 0 ≤ e then c * Nat.pow 10 e.natAbs * i.den else c * i.den
  let unit := if 0 ≤ e then i.num else i.num * Nat.pow 10 e.natAbs
  if i.closed then i.low * unit ≤ decimal && decimal ≤ i.high * unit
  else i.low * unit < decimal && decimal < i.high * unit

/-- The nearer to the number of `c · 10 ^ e` and `(c + 1) · 10 ^ e`, which lie around it. -/
def Interval.nearer (i : Interval) (tie : Tie) (c : Nat) (e : Int) : Nat :=
  let decimal :=
    if 0 ≤ e then (2 * c + 1) * Nat.pow 10 e.natAbs * i.den else (2 * c + 1) * i.den
  let unit := if 0 ≤ e then i.num else i.num * Nat.pow 10 e.natAbs
  let middle := 2 * i.value * unit
  if middle < decimal then c
  else if decimal < middle then c + 1
  else match tie with
    | .up => c + 1
    | .even => c + c % 2

/-- The largest `e` with `10 ^ e ≤ num / den`, for a positive ratio. -/
def decimalExponent (num den : Nat) : Int :=
  let guess : Int := ((Nat.toDigits 10 num).length : Int) - (Nat.toDigits 10 den).length
  let power := Nat.pow 10 guess.natAbs
  let reached := if 0 ≤ guess then power * den ≤ num else den ≤ num * power
  if reached then guess else guess - 1

/-- The closest decimal to the number on the grid `10 ^ e` that reads back to it. -/
def Interval.onGrid? (i : Interval) (tie : Tie) (e : Int) : Option Nat :=
  let numer := i.value * i.num
  let power := Nat.pow 10 e.natAbs
  let c := if 0 ≤ e then numer / (i.den * power) else numer * power / i.den
  match i.holds c e, i.holds (c + 1) e with
  | true, true => some (i.nearer tie c e)
  | true, false => some c
  | false, true => some (c + 1)
  | false, false => none

/-- Tries grids from `10 ^ e` downwards. -/
def Interval.search (i : Interval) (tie : Tie) : Nat → Int → Scientific
  | 0, e => ⟨0, e⟩
  | fuel + 1, e =>
    match i.onGrid? tie e with
    | some c => ⟨c, e⟩
    | none => i.search tie fuel (e - 1)

/-- The decimal with the fewest digits that reads back to the magnitude of `b`; of several, the
closest. Seventeen digits always suffice. -/
def shortest (tie : Tie) (b : Binary) : Scientific :=
  if b.significand = 0 then ⟨0, 0⟩
  else
    let i := b.interval
    let top := decimalExponent (i.value * i.num) i.den
    (i.search tie 17 top).strip 17

end Binary

end LiveScope
