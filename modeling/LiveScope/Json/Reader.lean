import LiveScope.Decimal.Reader
import LiveScope.Dict
import LiveScope.Json.Basic
import LiveScope.Number

/-!
# Reading JSON

`Json.read?` reads a complete document. Nesting is limited by a depth, and the reader recurses on
it: each container opened uses up one level. Loops over the items of one container are bounded by
the length of the text, since every item takes at least one character.

Numbers keep the digits that fit in 64 bits; the rest of them only moves the point. The result is
the significand, as a float, multiplied or divided by a power of ten, so it can differ in its last
bit from the nearest float. Integers of up to 64 bits are exact.
-/

namespace LiveScope.Json

/-- The nesting depth allowed in documents that come from outside. -/
def defaultDepth : Nat := 127

namespace Reader

/-- The blanks that may stand around tokens. -/
def isBlank (c : Char) : Bool := c == ' ' || c == '\n' || c == '\t' || c == '\r'

/-- The text without the blanks at its start. -/
def skip (cs : List Char) : List Char := cs.dropWhile isBlank

/-- The text after a fixed word at its start. -/
def word? : List Char → List Char → Option (List Char)
  | [], cs => some cs
  | w :: ws, c :: cs => if w = c then word? ws cs else none
  | _ :: _, [] => none

/-- The value of a hexadecimal digit. -/
def hexDigit? (c : Char) : Option Nat :=
  if '0' ≤ c ∧ c ≤ '9' then some (c.toNat - 48)
  else if 'a' ≤ c ∧ c ≤ 'f' then some (c.toNat - 87)
  else if 'A' ≤ c ∧ c ≤ 'F' then some (c.toNat - 55)
  else none

/-- The code unit written with four hexadecimal digits. -/
def unit? (a b c d : Char) : Option Nat := do
  let high := (← hexDigit? a) * 16 + (← hexDigit? b)
  let low := (← hexDigit? c) * 16 + (← hexDigit? d)
  pure (high * 256 + low)

/-- The character that a backslash and a letter stand for. -/
def escape? (c : Char) : Option Char :=
  match c with
  | '"' => some '"'
  | '\\' => some '\\'
  | '/' => some '/'
  | 'b' => some '\x08'
  | 'f' => some '\x0c'
  | 'n' => some '\n'
  | 'r' => some '\r'
  | 't' => some '\t'
  | _ => none

/-- The rest of a string after its opening quote, collected in reverse. Code units outside the
basic plane come as pairs; a unit of a pair that stands alone is an error. -/
def string? (done : List Char) : List Char → Option (String × List Char)
  | [] => none
  | '"' :: cs => some (String.ofList done.reverse, cs)
  | '\\' :: 'u' :: a :: b :: c :: d :: cs =>
    match unit? a b c d with
    | none => none
    | some hi =>
      if hi < 0xd800 ∨ 0xdfff < hi then string? (Char.ofNat hi :: done) cs
      else if 0xdc00 ≤ hi then none
      else match cs with
        | '\\' :: 'u' :: e :: f :: g :: h :: cs =>
          match unit? e f g h with
          | none => none
          | some lo =>
            if 0xdc00 ≤ lo ∧ lo ≤ 0xdfff then
              string? (Char.ofNat (0x10000 + (hi - 0xd800) * 0x400 + (lo - 0xdc00)) :: done) cs
            else none
        | _ => none
  | '\\' :: c :: cs =>
    match escape? c with
    | some e => string? (e :: done) cs
    | none => none
  | c :: cs => if c.toNat < 0x20 then none else string? (c :: done) cs

/-- Takes digits into the significand while it stays below `2 ^ 64`: the significand, how many
digits it took, and the rest. -/
def significand (acc count : Nat) : List Char → Nat × Nat × List Char
  | [] => (acc, count, [])
  | c :: cs =>
    match Decimal.digit? c with
    | some d =>
      if acc * 10 + d < Nat.pow 2 64 then significand (acc * 10 + d) (count + 1) cs
      else (acc, count, c :: cs)
    | none => (acc, count, c :: cs)

/-- `± significand · 10 ^ exponent` in float arithmetic; a result out of range is an error.
Quotients by powers beyond `10 ^ 308` are taken in steps. -/
def scale? (negative : Bool) (significand : Nat) (exponent : Int) : Option Float :=
  let signed (x : Float) := if negative then -x else x
  let power (n : Nat) := Number.ofNat (Nat.pow 10 n)
  let rec down : Nat → Float → Nat → Float
    | 0, x, _ => x
    | fuel + 1, x, n => if n ≤ 308 ∨ x == 0 then x / power (min n 308)
      else down fuel (x / power 308) (n - 308)
  let x := Number.ofNat significand
  if x == 0 then some (signed x)
  else if exponent < 0 then some (signed (down 8 x exponent.natAbs))
  else if 308 < exponent then none
  else
    let y := x * power exponent.natAbs
    if y.isInf then none else some (signed y)

/-- The exponent part, if there is one, and then the number. -/
def finish? (negative : Bool) (significand : Nat) (shift : Int) (cs : List Char) :
    Option (Float × List Char) :=
  match cs with
  | c :: rest =>
    if c = 'e' ∨ c = 'E' then
      let (down, rest) := Decimal.sign rest
      match Decimal.spanDigits rest with
      | ([], _) => none
      | (ds, rest) =>
        let n := Decimal.natural 0 ds
        if Nat.pow 2 31 ≤ n then
          if down ∨ significand = 0 then some (if negative then -0.0 else 0.0, rest) else none
        else (scale? negative significand (if down then shift - n else shift + n)).map (·, rest)
    else (scale? negative significand shift).map (·, cs)
  | [] => (scale? negative significand shift).map (·, cs)

/-- The fraction and exponent of a number whose integral digits are read. -/
def fraction? (negative : Bool) (acc : Nat) (dropped : Nat) (cs : List Char) :
    Option (Float × List Char) :=
  match cs with
  | '.' :: rest =>
    match Decimal.spanDigits rest with
    | ([], _) => none
    | (ds, rest) =>
      let (acc, taken, _) := significand acc 0 ds
      finish? negative acc ((dropped : Int) - taken) rest
  | _ => finish? negative acc dropped cs

/-- A number after its sign. -/
def magnitude? (negative : Bool) (cs : List Char) : Option (Json × List Char) :=
  match Decimal.spanDigits cs with
  | ([], _) => none
  | ('0' :: _ :: _, _) => none
  | (ds, rest) =>
    let (acc, _, unread) := significand 0 0 ds
    let fractional := match rest with
      | c :: _ => c == '.' || c == 'e' || c == 'E'
      | [] => false
    if unread.isEmpty && !fractional then
      if !negative then some (integer acc, rest)
      else if acc = 0 then some (float (-0.0), rest)
      else if acc ≤ Nat.pow 2 63 then some (integer (-(acc : Int)), rest)
      else some (float (-(Number.ofNat acc)), rest)
    else (fraction? negative acc unread.length rest).map fun (x, rest) => (float x, rest)

/-- A number. -/
def number? : List Char → Option (Json × List Char)
  | '-' :: cs => magnitude? true cs
  | cs => magnitude? false cs

/-- The rest of a sequence up to and with its closing character, items separated by commas. -/
def sequence? {α : Type} (item : List Char → Option (α × List Char)) (close : Char) :
    Nat → List α → List Char → Option (List α × List Char)
  | 0, _, _ => none
  | fuel + 1, done, cs =>
    match item cs with
    | none => none
    | some (x, rest) =>
      match skip rest with
      | ',' :: rest => sequence? item close fuel (x :: done) rest
      | c :: rest => if c = close then some ((x :: done).reverse, rest) else none
      | [] => none

/-- A sequence that may be empty, after its opening character. -/
def sequenceOrEmpty? {α : Type} (item : List Char → Option (α × List Char)) (close : Char)
    (fuel : Nat) (cs : List Char) : Option (List α × List Char) :=
  match skip cs with
  | c :: rest => if c = close then some ([], rest) else sequence? item close fuel [] cs
  | [] => none

/-- A member of an object: its name, a colon and its value. -/
def member? {α : Type} (item : List Char → Option (α × List Char)) (cs : List Char) :
    Option ((String × α) × List Char) := do
  let '"' :: cs := skip cs | none
  let (name, cs) ← string? [] cs
  let ':' :: cs := skip cs | none
  let (value, cs) ← item cs
  pure ((name, value), cs)

/-- A document at the start of a text, with at most `depth` containers around any part of it. -/
def document? (budget : Nat) : Nat → List Char → Option (Json × List Char)
  | depth, cs =>
    match skip cs with
    | 'n' :: cs => (word? "ull".toList cs).map (null, ·)
    | 't' :: cs => (word? "rue".toList cs).map (bool true, ·)
    | 'f' :: cs => (word? "alse".toList cs).map (bool false, ·)
    | '"' :: cs => (string? [] cs).map fun (s, cs) => (text s, cs)
    | '[' :: cs =>
      match depth with
      | 0 => none
      | depth + 1 =>
        (sequenceOrEmpty? (document? budget depth) ']' budget cs).map fun (items, cs) =>
          (array items, cs)
    | '\x7b' :: cs =>
      match depth with
      | 0 => none
      | depth + 1 =>
        (sequenceOrEmpty? (member? (document? budget depth)) '\x7d' budget cs).map
          fun (members, cs) => (object (Dict.ofList members).entries, cs)
    | cs => number? cs

end Reader

/-- The document that a text holds, blanks around it aside. -/
def read? (depth : Nat) (s : String) : Option Json :=
  let cs := s.toList
  match Reader.document? (cs.length + 1) depth cs with
  | some (json, rest) => if (Reader.skip rest).isEmpty then some json else none
  | none => none

end LiveScope.Json
