import LiveScope.Decimal.Shortest

/-!
# Written forms of decimals

A `Layout` says how a decimal is written: for which magnitudes without an exponent, whether an
integral number keeps a decimal point, and how a tie between two shortest decimals is broken. Two
layouts are in use: `Layout.plain` for text shown to people and `Layout.interchange` for JSON.
-/

namespace LiveScope

namespace Scientific

/-- The decimal digits of the coefficient. -/
def digits (s : Scientific) : List Char := Nat.toDigits 10 s.coefficient

/-- The power of ten of the leading digit. -/
def magnitude (s : Scientific) : Int := s.exponent + s.digits.length - 1

/-- The decimal written without an exponent; `point` adds `.0` to an integral one. -/
def positional (s : Scientific) (point : Bool) : List Char :=
  let ds := s.digits
  if 0 ≤ s.exponent then
    ds ++ List.replicate s.exponent.natAbs '0' ++ (if point then ['.', '0'] else [])
  else
    let places := s.exponent.natAbs
    if places < ds.length then
      ds.take (ds.length - places) ++ '.' :: ds.drop (ds.length - places)
    else '0' :: '.' :: (List.replicate (places - ds.length) '0' ++ ds)

/-- The decimal with one digit before the point and an exponent, whose sign is always written. -/
def exponential (s : Scientific) : List Char :=
  let mantissa := match s.digits with
    | [] => []
    | [d] => [d]
    | d :: ds => d :: '.' :: ds
  let sign := if s.magnitude < 0 then '-' else '+'
  mantissa ++ 'e' :: sign :: Nat.toDigits 10 s.magnitude.natAbs

end Scientific

/-- How finite numbers are written. -/
structure Layout where
  /-- The powers of ten of the leading digit for which no exponent is written, or all of them. -/
  positional : Option (Int × Int)
  /-- Whether an integral number ends in `.0`. -/
  point : Bool
  /-- Which of two closest decimals is written. -/
  tie : Tie

namespace Layout

/-- Never an exponent and never a superfluous point. -/
def plain : Layout := ⟨none, false, .up⟩

/-- An exponent below `1e-5` and from `1e16` on, and a point in every number without one. -/
def interchange : Layout := ⟨some (-5, 15), true, .even⟩

/-- The text of a finite number with its sign. -/
def write (layout : Layout) (b : Binary) : String :=
  let s := b.shortest layout.tie
  let inRange := match layout.positional with
    | none => true
    | some (low, high) => low ≤ s.magnitude && s.magnitude ≤ high
  let body := if inRange then s.positional layout.point else s.exponential
  String.ofList (if b.negative then '-' :: body else body)

end Layout

end LiveScope
