import LiveScope.Decimal.Notation
import LiveScope.Decimal.Reader
import LiveScope.Decimal.Remainder
import LiveScope.Text.Blank

/-!
# Numbers of the expression language

Every number is a 64-bit float. `Number.text` is how templates show it, `Number.ofText` how a text
is coerced to one.
-/

namespace LiveScope.Number

/-- The number a float stands for, when it is integral. -/
def integer? (x : Float) : Option Int := do
  let b ← Binary.ofFloat? x
  let n ← b.natural?
  pure (if b.negative then -(n : Int) else n)

/-- How templates show a number: an integral one below `1e21` in all its digits and without a sign
on zero, any other in the fewest digits that read back, and never with an exponent. -/
def text (x : Float) : String :=
  match Binary.ofFloat? x with
  | none => if x.isNaN then "NaN" else if 0 < x then "Infinity" else "-Infinity"
  | some b =>
    if b.significand = 0 then "0"
    else match b.natural? with
      | some n =>
        if n < Nat.pow 10 21 then (if b.negative then "-" else "") ++ n.repr
        else Layout.plain.write b
      | none => Layout.plain.write b

/-- The number that a text is coerced to: blanks around it do not count, a blank text is zero, and
what is no numeral is NaN. -/
def ofText (s : String) : Float :=
  match Text.trim s.toList with
  | [] => 0
  | cs => (Decimal.read? (String.ofList cs)).getD (0.0 / 0.0)

/-- A natural as a number, rounded to the nearest one. -/
def ofNat (n : Nat) : Float := Binary.ofRatio false n 1

/-- An integer as a number, rounded to the nearest one. -/
def ofInt (n : Int) : Float := Binary.ofRatio (n < 0) n.natAbs 1

end LiveScope.Number
