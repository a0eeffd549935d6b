import LiveScope.Json.Basic
import LiveScope.Decimal.Notation

/-!
# Writing JSON

The compact text of a document. Strings escape quotes, backslashes and the control characters
below the space, and nothing else.
-/

namespace LiveScope.Json

/-- A character inside a string. -/
def escape (c : Char) : String :=
  match c with
  | '"' => "\\\""
  | '\\' => "\\\\"
  | '\x08' => "\\b"
  | '\t' => "\\t"
  | '\n' => "\\n"
  | '\x0c' => "\\f"
  | '\r' => "\\r"
  | c =>
    if c.toNat < 0x20 then
      let digits := Nat.toDigits 16 c.toNat
      "\\u" ++ String.ofList (List.replicate (4 - digits.length) '0' ++ digits)
    else c.toString

/-- A string in quotes. -/
def quote (s : String) : String := "\"" ++ String.join (s.toList.map escape) ++ "\""

/-- A number that is no 64-bit integer; infinities and NaN have no form and become `null`. -/
def printFloat (x : Float) : String :=
  match Binary.ofFloat? x with
  | some b => Layout.interchange.write b
  | none => "null"

mutual

/-- The compact text of a document. -/
def print : Json → String
  | null => "null"
  | bool b => if b then "true" else "false"
  | integer n => n.repr
  | float x => printFloat x
  | text s => quote s
  | array items => "[" ++ ",".intercalate (printItems items) ++ "]"
  | object members => "\x7b" ++ ",".intercalate (printMembers members) ++ "\x7d"

/-- The texts of the items of an array. -/
def printItems : List Json → List String
  | [] => []
  | item :: items => print item :: printItems items

/-- The texts of the members of an object. -/
def printMembers : List (String × Json) → List String
  | [] => []
  | (name, value) :: members => (quote name ++ ":" ++ print value) :: printMembers members

end

end LiveScope.Json
