import LiveScope.Decimal.Binary

/-!
# Reading decimals

`Decimal.read?` reads a decimal text: an optional sign, digits with an optional point (a digit on
at least one side of it) and an optional exponent, or one of the words `inf`, `infinity` and `nan`
in any case. The result is the float nearest to the decimal.
-/

namespace LiveScope.Decimal

/-- The value of a decimal digit. -/
def digit? (c : Char) : Option Nat :=
  if '0' ≤ c ∧ c ≤ '9' then some (c.toNat - '0'.toNat) else none

/-- Splits off the leading digits. -/
def spanDigits (cs : List Char) : List Char × List Char := cs.span fun c => (digit? c).isSome

/-- Digits read as one natural, after the natural `acc`. -/
def natural (acc : Nat) (ds : List Char) : Nat :=
  ds.foldl (fun n c => 10 * n + (digit? c).getD 0) acc

/-- The float nearest to `± coefficient · 10 ^ exponent`. Exponents so far out that the result is
an infinity or zero in any case are not computed with. -/
def toFloat (negative : Bool) (coefficient : Nat) (exponent : Int) : Float :=
  let magnitude := exponent + (Nat.toDigits 10 coefficient).length
  if coefficient = 0 ∨ magnitude < -400 then Binary.ofRatio negative 0 1
  else if 400 < magnitude then Binary.toFloat ⟨negative, Binary.normal, 972⟩
  else if 0 ≤ exponent then Binary.ofRatio negative (coefficient * Nat.pow 10 exponent.natAbs) 1
  else Binary.ofRatio negative coefficient (Nat.pow 10 exponent.natAbs)

/-- Splits a leading sign off: whether it is a minus, and the rest. -/
def sign : List Char → Bool × List Char
  | '-' :: cs => (true, cs)
  | '+' :: cs => (false, cs)
  | cs => (false, cs)

/-- The exponent part of a decimal, which runs to the end of the text; none is zero. -/
def exponent? : List Char → Option Int
  | [] => some 0
  | c :: cs =>
    if c = 'e' ∨ c = 'E' then
      let (negative, cs) := sign cs
      match spanDigits cs with
      | (ds@(_ :: _), []) =>
        let n := natural 0 ds
        some (if negative then -(n : Int) else n)
      | _ => none
    else none

/-- A decimal without its sign. -/
def magnitude? (negative : Bool) (cs : List Char) : Option Float :=
  let (whole, rest) := spanDigits cs
  let (fraction, rest) := match rest with
    | '.' :: rest => spanDigits rest
    | _ => ([], rest)
  if whole.isEmpty ∧ fraction.isEmpty then none
  else (exponent? rest).map fun e =>
    toFloat negative (natural (natural 0 whole) fraction) (e - fraction.length)

/-- The number that a word stands for. -/
def word? (negative : Bool) (cs : List Char) : Option Float :=
  match String.ofList (cs.map Char.toLower) with
  | "inf" | "infinity" => some (Binary.toFloat ⟨negative, Binary.normal, 972⟩)
  | "nan" => some (0.0 / 0.0)
  | _ => none

/-- The number a text denotes. -/
def read? (text : String) : Option Float :=
  let (negative, cs) := sign text.toList
  match word? negative cs with
  | some x => some x
  | none => magnitude? negative cs

end LiveScope.Decimal
