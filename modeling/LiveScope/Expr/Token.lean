import LiveScope.Fault

/-!
# Tokens

The lexical classes of the expression language, and what they share: characters of names, quotes,
and the extent of a quoted string. Offsets count bytes of UTF-8.
-/

namespace LiveScope

/-- The lexical classes. -/
inductive TokenKind where
  /-- A run of blanks. -/
  | space
  /-- A name, or sigils with or without a name. -/
  | reference
  /-- A member of the spec row. -/
  | property
  /-- A number, a quoted text, or one of the words `true`, `false` and `null`. -/
  | literal
  /-- A plus or minus. -/
  | additive
  /-- A comparison or a logical connective. -/
  | comparison
  /-- `*`, `/` or `%`. -/
  | multiplicative
  /-- An exclamation mark. -/
  | negation
  /-- An opening parenthesis. -/
  | openParen
  /-- A closing parenthesis. -/
  | closeParen
  /-- A question mark. -/
  | question
  /-- A colon. -/
  | colon
  /-- Two points. -/
  | concat
  /-- The source of an interpolation, tokenized when it is parsed. -/
  | interpolation
deriving DecidableEq, Repr

namespace TokenKind

/-- All classes. -/
def all : List TokenKind :=
  [space, reference, property, literal, additive, comparison, multiplicative, negation, openParen,
    closeParen, question, colon, concat, interpolation]

/-- The name of a class in listings. -/
def label : TokenKind → String
  | space => "Space"
  | reference => "Var"
  | property => "Prop"
  | literal => "Lit"
  | additive => "AddSub"
  | comparison => "Comp"
  | multiplicative => "MulDiv"
  | negation => "Una"
  | openParen => "LPar"
  | closeParen => "RPar"
  | question => "Tern"
  | colon => "Colon"
  | concat => "Concat"
  | interpolation => "Expr"

end TokenKind

/-- A lexeme with its class and the offset at which it starts in the outermost source. -/
structure Token where
  /-- The class. -/
  kind : TokenKind
  /-- The text; of an interpolation, what is between the braces. -/
  src : String
  /-- The offset of the text. -/
  offset : Nat
deriving DecidableEq, Repr

namespace Lexeme

/-- The number of bytes of a text. -/
def bytes (cs : List Char) : Nat := cs.foldr (fun c n => c.utf8Size + n) 0

/-- Whether a character opens a quoted string. -/
def isQuote (c : Char) : Bool := c == '"' || c == '\'' || c == '`'

/-- Whether a character is a decimal digit. -/
def isDigit (c : Char) : Bool := '0' ≤ c && c ≤ '9'

/-- Whether a character can start a name. -/
def isNameStart (c : Char) : Bool :=
  ('a' ≤ c && c ≤ 'z') || ('A' ≤ c && c ≤ 'Z') || c == '_'

/-- Whether a character can go on with a name. -/
def isNameChar (c : Char) : Bool := isNameStart c || isDigit c

/-- What a quoted string holds, and the rest after its closing quote. A backslash protects the
character after it. -/
def quotedBody? (quote : Char) : List Char → Option (List Char × List Char)
  | [] => none
  | ['\\'] => none
  | '\\' :: c :: cs => (quotedBody? quote cs).map fun (body, rest) => ('\\' :: c :: body, rest)
  | c :: cs =>
    if c = quote then some ([], cs)
    else (quotedBody? quote cs).map fun (body, rest) => (c :: body, rest)

/-- A quoted string is its body, the closing quote and the rest. -/
theorem eq_of_quotedBody? {quote : Char} {cs body rest : List Char}
    (h : quotedBody? quote cs = some (body, rest)) : cs = body ++ quote :: rest := by
  fun_induction quotedBody? quote cs generalizing body rest with
  | case1 => simp at h
  | case2 => simp at h
  | case3 c cs ih =>
    obtain ⟨⟨b, r⟩, hb, he⟩ := Option.map_eq_some_iff.1 h
    simp only [Prod.mk.injEq] at he
    obtain ⟨rfl, rfl⟩ := he
    simp [ih hb]
  | case4 c cs =>
    simp only [Option.some.injEq, Prod.mk.injEq] at h
    obtain ⟨rfl, rfl⟩ := h
    rfl
  | case5 c cs _ _ _ ih =>
    obtain ⟨⟨b, r⟩, hb, he⟩ := Option.map_eq_some_iff.1 h
    simp only [Prod.mk.injEq] at he
    obtain ⟨rfl, rfl⟩ := he
    simp [ih hb]

end Lexeme

end LiveScope
