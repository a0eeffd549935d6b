import LiveScope.Expr.Template
import LiveScope.Text.Blank

/-!
# Reading tokens

`Token.scan` reads the source of an expression. At each place the first character decides which
class of lexeme can start there, and the longest lexeme of that class is taken, so that `!=` is one
comparison and not a negation. A quoted string is no token of its own: its contents are read as a
template, which makes references and interpolations inside it live.
-/

namespace LiveScope

namespace Lexeme

/-- What stands at the start of a source. -/
inductive Shape where
  /-- A token of a class, as written. -/
  | token (kind : TokenKind) (src : List Char)
  /-- A quoted string: its quote and what is between the quotes. -/
  | quoted (quote : Char) (body : List Char)
deriving DecidableEq, Repr

/-- The text of a lexeme. -/
def Shape.src : Shape → List Char
  | token _ src => src
  | quoted q body => q :: body ++ [q]

/-- The words that are literals and no names. -/
def keywords : List String := ["true", "false", "null"]

/-- The fraction of a number: a point and at least one digit. -/
def fraction (cs : List Char) : List Char :=
  match cs with
  | '.' :: cs =>
    match cs.takeWhile isDigit with
    | [] => []
    | ds => '.' :: ds
  | _ => []

/-- The exponent of a number: a letter, an optional sign and at least one digit. -/
def exponent (cs : List Char) : List Char :=
  match cs with
  | e :: cs =>
    if e = 'e' ∨ e = 'E' then
      let sign := match cs with
        | '+' :: _ => ['+']
        | '-' :: _ => ['-']
        | _ => []
      match (cs.drop sign.length).takeWhile isDigit with
      | [] => []
      | ds => e :: sign ++ ds
    else []
  | [] => []

/-- The number at the start of a source that starts with a digit. -/
def number (cs : List Char) : List Char :=
  let whole := cs.takeWhile isDigit
  let withFraction := whole ++ fraction (cs.drop whole.length)
  withFraction ++ exponent (cs.drop withFraction.length)

/-- The operator or parenthesis at the start of a source. -/
def operator? : List Char → Option Shape
  | '=' :: '=' :: _ => some (.token .comparison ['=', '='])
  | '!' :: '=' :: _ => some (.token .comparison ['!', '='])
  | '>' :: '=' :: _ => some (.token .comparison ['>', '='])
  | '<' :: '=' :: _ => some (.token .comparison ['<', '='])
  | '&' :: '&' :: _ => some (.token .comparison ['&', '&'])
  | '|' :: '|' :: _ => some (.token .comparison ['|', '|'])
  | '.' :: '.' :: _ => some (.token .concat ['.', '.'])
  | '>' :: _ => some (.token .comparison ['>'])
  | '<' :: _ => some (.token .comparison ['<'])
  | '+' :: _ => some (.token .additive ['+'])
  | '-' :: _ => some (.token .additive ['-'])
  | '*' :: _ => some (.token .multiplicative ['*'])
  | '/' :: _ => some (.token .multiplicative ['/'])
  | '%' :: _ => some (.token .multiplicative ['%'])
  | '!' :: _ => some (.token .negation ['!'])
  | '(' :: _ => some (.token .openParen ['('])
  | ')' :: _ => some (.token .closeParen [')'])
  | '?' :: _ => some (.token .question ['?'])
  | ':' :: _ => some (.token .colon [':'])
  | _ => none

/-- The lexeme at the start of a source, if one starts there. -/
def next? : List Char → Option Shape
  | [] => none
  | c :: cs =>
    if Text.isBlank c then some (.token .space (c :: cs.takeWhile Text.isBlank))
    else if c = '$' then
      let sigils := cs.takeWhile (· == '$')
      let name := (cs.dropWhile (· == '$')).takeWhile isNameChar
      some (.token .reference (c :: sigils ++ name))
    else if c = '@' then
      match cs.takeWhile isNameChar with
      | [] => none
      | name => some (.token .property (c :: name))
    else if isNameStart c then
      let word := c :: cs.takeWhile isNameChar
      some (.token (if String.ofList word ∈ keywords then .literal else .reference) word)
    else if isDigit c then some (.token .literal (number (c :: cs)))
    else if isQuote c then (quotedBody? c cs).map fun (body, _) => .quoted c body
    else operator? (c :: cs)

/-- A lexeme has at least one character. -/
theorem length_src_pos {cs : List Char} {shape : Shape} (h : next? cs = some shape) :
    0 < shape.src.length := by
  cases cs with
  | nil => simp [next?] at h
  | cons c cs =>
    simp only [next?] at h
    split at h
    · cases h; simp [Shape.src]
    split at h
    · cases h; simp [Shape.src]
    split at h
    · split at h
      · simp at h
      · cases h; simp [Shape.src]
    split at h
    · cases h; simp [Shape.src]
    split at h
    · rename_i hd
      cases h
      simp [Shape.src, number, hd]
    split at h
    · obtain ⟨⟨body, rest⟩, _, rfl⟩ := Option.map_eq_some_iff.1 h
      simp [Shape.src]
    · unfold operator? at h
      split at h <;> cases h <;> simp [Shape.src]

end Lexeme

namespace Token

open Lexeme

/-- The tokens of a lexeme at an offset. -/
def ofShape (offset : Nat) : Shape → Except Fault (List Token)
  | .token kind src => .ok [⟨kind, String.ofList src, offset⟩]
  | .quoted _ body => Template.tokens (offset + 1) body

/-- The tokens of a source that starts at `offset`. -/
def scan (offset : Nat) (cs : List Char) : Except Fault (List Token) :=
  if cs.isEmpty then .ok []
  else match _h : next? cs with
    | none => .error (.malformed offset (.unexpectedInput (String.ofList (cs.take 20))))
    | some shape => do
      let here ← ofShape offset shape
      return here ++ (← scan (offset + bytes shape.src) (cs.drop shape.src.length))
termination_by cs.length
decreasing_by
  have := length_src_pos _h
  cases cs
  · simp_all
  · simp_all; omega

end Token

end LiveScope
