import LiveScope.Expr.Token

/-!
# Templates

A template is text in which `$name` and `{{ expression }}` are live. It is read in three steps:
`Template.pieces` takes the text apart into characters, references and interpolations,
`Template.parts` joins neighbouring characters into constant runs, and `Template.tokens` writes the
parts as tokens of one concatenation. The contents of every quoted string are a template too.
-/

namespace LiveScope

namespace Template

open Lexeme

/-- The smallest parts of a template. -/
inductive Piece where
  /-- A character that stands for itself. -/
  | char (c : Char)
  /-- A reference, its sigils included. -/
  | reference (src : List Char)
  /-- The source between the braces of an interpolation. -/
  | interpolation (src : List Char)
deriving DecidableEq, Repr

/-- What a backslash and a character stand for. -/
def unescape (c : Char) : Char :=
  if c = 'n' then '\n' else if c = 't' then '\t' else c

/-- The source of an interpolation, and the rest after its closing braces. Quoted strings are
skipped and nested pairs of braces are balanced: `depth` counts the pairs that are open. -/
def interpolation? (depth : Nat) (cs : List Char) : Option (List Char × List Char) :=
  match cs with
  | [] => none
  | '{' :: '{' :: cs =>
    (interpolation? (depth + 1) cs).map fun (src, rest) => ('{' :: '{' :: src, rest)
  | '}' :: '}' :: cs =>
    match depth with
    | 0 => some ([], cs)
    | depth + 1 => (interpolation? depth cs).map fun (src, rest) => ('}' :: '}' :: src, rest)
  | c :: cs =>
    if isQuote c then
      match h : quotedBody? c cs with
      | none => none
      | some (body, rest) =>
        have : rest.length < cs.length := by
          have := congrArg List.length (eq_of_quotedBody? h)
          simp at this
          omega
        (interpolation? depth rest).map fun (src, rest) => (c :: body ++ c :: src, rest)
    else (interpolation? depth cs).map fun (src, rest) => (c :: src, rest)
termination_by cs.length
decreasing_by all_goals simp_all <;> omega

/-- An interpolation is its source, the closing braces and the rest. -/
theorem eq_of_interpolation? {depth : Nat} {cs src rest : List Char}
    (h : interpolation? depth cs = some (src, rest)) : cs = src ++ '}' :: '}' :: rest := by
  fun_induction interpolation? depth cs generalizing src rest with
  | case1 => simp at h
  | case2 depth cs ih =>
    obtain ⟨⟨s, r⟩, hs, he⟩ := Option.map_eq_some_iff.1 h
    simp only [Prod.mk.injEq] at he
    obtain ⟨rfl, rfl⟩ := he
    simp [ih hs]
  | case3 cs =>
    simp only [Option.some.injEq, Prod.mk.injEq] at h
    obtain ⟨rfl, rfl⟩ := h
    rfl
  | case4 cs depth ih =>
    obtain ⟨⟨s, r⟩, hs, he⟩ := Option.map_eq_some_iff.1 h
    simp only [Prod.mk.injEq] at he
    obtain ⟨rfl, rfl⟩ := he
    simp [ih hs]
  | case5 => simp at h
  | case6 depth c cs _ _ _ body rest' hb _ ih =>
    obtain ⟨⟨s, r⟩, hs, he⟩ := Option.map_eq_some_iff.1 h
    simp only [Prod.mk.injEq] at he
    obtain ⟨rfl, rfl⟩ := he
    simp [eq_of_quotedBody? hb, ih hs]
  | case7 depth c cs _ _ _ ih =>
    obtain ⟨⟨s, r⟩, hs, he⟩ := Option.map_eq_some_iff.1 h
    simp only [Prod.mk.injEq] at he
    obtain ⟨rfl, rfl⟩ := he
    simp [ih hs]

/-- The reference whose first sigil is read, and the rest after it; sigils that no name follows are
no reference. -/
def reference? (cs : List Char) : Option (List Char × List Char) :=
  let afterSigils := cs.dropWhile (· == '$')
  match afterSigils.takeWhile isNameChar with
  | [] => none
  | name => some ('$' :: cs.takeWhile (· == '$') ++ name, afterSigils.dropWhile isNameChar)

/-- A reference and the rest are what stood there. -/
theorem eq_of_reference? {cs src rest : List Char} (h : reference? cs = some (src, rest)) :
    '$' :: cs = src ++ rest := by
  simp only [reference?] at h
  split at h
  · simp at h
  · simp only [Option.some.injEq, Prod.mk.injEq] at h
    obtain ⟨rfl, rfl⟩ := h
    simp [List.takeWhile_append_dropWhile]

/-- A reference takes up at least its sigil and one character of a name. -/
theorem length_lt_of_reference? {cs src rest : List Char} (h : reference? cs = some (src, rest)) :
    rest.length < cs.length := by
  have he := congrArg List.length (eq_of_reference? h)
  simp only [reference?] at h
  split at h
  · simp at h
  · rename_i hne
    simp only [Option.some.injEq, Prod.mk.injEq] at h
    obtain ⟨rfl, rfl⟩ := h
    have := List.length_pos_iff.2 hne
    simp only [List.length_cons, List.length_append] at he
    omega

/-- The pieces of a template with their offsets, for a template that starts at `offset`. Sigils
without a name stand for themselves. -/
def pieces (offset : Nat) (cs : List Char) : Except Fault (List (Nat × Piece)) :=
  match cs with
  | [] => .ok []
  | ['\\'] => .error (.malformed offset .malformedEscape)
  | '\\' :: c :: cs => do
    return (offset, .char (unescape c)) :: (← pieces (offset + bytes ['\\', c]) cs)
  | '{' :: '{' :: cs =>
    match h : interpolation? 0 cs with
    | none => .error (.malformed offset .unterminatedInterpolation)
    | some (src, rest) => do
      have : rest.length < cs.length := by
        have := congrArg List.length (eq_of_interpolation? h)
        simp at this
        omega
      return (offset + 2, .interpolation src) :: (← pieces (offset + bytes src + 4) rest)
  | '$' :: cs =>
    match h : reference? cs with
    | none => do
      return (offset, .char '$') :: (← pieces (offset + 1) cs)
    | some (src, rest) => do
      have := length_lt_of_reference? h
      return (offset, .reference src) :: (← pieces (offset + bytes src) rest)
  | c :: cs => do
    return (offset, .char c) :: (← pieces (offset + bytes [c]) cs)
termination_by cs.length
decreasing_by all_goals simp_all <;> omega

/-- The parts of a template. -/
inductive Part where
  /-- A run of constant text, never empty unless it was put in to make the result a text. -/
  | text (content : List Char)
  /-- A reference, its sigils included. -/
  | reference (src : List Char)
  /-- The source of an interpolation. -/
  | interpolation (src : List Char)
deriving DecidableEq, Repr

/-- Puts a piece before the parts that follow it. -/
def Part.cons : Nat × Piece → List (Nat × Part) → List (Nat × Part)
  | (offset, .char c), (_, .text cs) :: parts => (offset, .text (c :: cs)) :: parts
  | (offset, .char c), parts => (offset, .text [c]) :: parts
  | (offset, .reference src), parts => (offset, .reference src) :: parts
  | (offset, .interpolation src), parts => (offset, .interpolation src) :: parts

/-- The parts of a template with their offsets: constant runs, references and interpolations. -/
def parts (offset : Nat) (cs : List Char) : Except Fault (List (Nat × Part)) := do
  return (← pieces offset cs).foldr Part.cons []

/-- A constant in double quotes, so that reading it as a literal gives it back. -/
def quote (cs : List Char) : String :=
  let escaped := cs.flatMap fun c => if c = '"' ∨ c = '\\' then ['\\', c] else [c]
  String.ofList ('"' :: escaped ++ ['"'])

/-- The token of a part. -/
def Part.token : Nat × Part → Token
  | (offset, .text cs) => ⟨.literal, quote cs, offset⟩
  | (offset, .reference src) => ⟨.reference, String.ofList src, offset⟩
  | (offset, .interpolation src) => ⟨.interpolation, String.ofList src, offset⟩

/-- A lone reference gets an empty text before it, so that its value is shown as text; a lone
interpolation keeps the type of its value. -/
def padded : List (Nat × Part) → List (Nat × Part)
  | [(offset, .reference src)] => [(offset, .text []), (offset, .reference src)]
  | parts => parts

/-- The tokens of a template that starts at `offset`: its parts joined by `..`, in parentheses if
there are several. -/
def tokens (offset : Nat) (cs : List Char) : Except Fault (List Token) := do
  match (padded (← parts offset cs)).map Part.token with
  | [] => return [⟨.literal, quote [], offset⟩]
  | [token] => return [token]
  | first :: rest =>
    let joined := first :: rest.flatMap fun token => [⟨.concat, "..", token.offset⟩, token]
    return ⟨.openParen, "(", offset⟩ :: joined ++ [⟨.closeParen, ")", offset + bytes cs⟩]

/-- Whether a text contains a mark that can begin something live. -/
def isLive : List Char → Bool
  | [] => false
  | '{' :: '{' :: _ => true
  | c :: cs => c == '$' || isLive cs

end Template

end LiveScope
