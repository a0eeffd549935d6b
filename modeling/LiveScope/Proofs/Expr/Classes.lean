import LiveScope.Proofs.Expr.Numerals
import LiveScope.Proofs.Expr.Offsets
import LiveScope.Proofs.Template.Meaning

/-!
# What the tokens of a source look like

A token could have any text, but one that is read from a source has a text of its class
(`Token.Regular`): a reference is sigils and a name, a member of the spec row a mark and a name, and
a literal is a word, a numeral or a constant in quotes. `Token.regular_of_mem_scan` says so of
expressions and `Token.regular_of_mem_template` of templates. In particular every literal that is
read denotes a constant (`Token.Regular.readable`).
-/

namespace LiveScope

open Lexeme

/-! ## The forms of the classes -/

namespace Lexeme

/-- Whether a text consists of characters of names. -/
def NameChars (cs : List Char) : Prop := ∀ c ∈ cs, isNameChar c = true

/-- Whether a text is a name without sigils that is no word of the language. -/
def BareName (cs : List Char) : Prop :=
  (∀ c ∈ cs.head?, isNameStart c = true) ∧ cs ≠ [] ∧ String.ofList cs ∉ keywords

/-- A reference: sigils and a name, of which there is one if there are no sigils. -/
def IsReference (cs : List Char) : Prop :=
  ∃ sigils name, cs = List.replicate sigils '$' ++ name ∧ NameChars name ∧
    (sigils = 0 → BareName name)

/-- A member of the spec row: its mark and a name. -/
def IsProperty (cs : List Char) : Prop := ∃ name, cs = '@' :: name ∧ name ≠ [] ∧ NameChars name

/-- A literal: a word, a numeral or a constant in quotes. -/
def IsLiteral (cs : List Char) : Prop :=
  String.ofList cs ∈ keywords ∨ Numeral cs ∨ ∃ run, String.ofList cs = Template.quote run

/-- Whether a text fits a class. -/
def Fits (kind : TokenKind) (cs : List Char) : Prop :=
  match kind with
  | .reference => IsReference cs
  | .property => IsProperty cs
  | .literal => IsLiteral cs
  | _ => True

end Lexeme

/-- Whether a token has a text of its class. -/
def Token.Regular (t : Token) : Prop := Lexeme.Fits t.kind t.src.toList

namespace Lexeme

/-- The names at the start of a text are made of the characters of names. -/
theorem nameChars_takeWhile (cs : List Char) : NameChars (cs.takeWhile isNameChar) :=
  fun c hc => List.all_eq_true.1 List.all_takeWhile c hc

/-- The sigils at the start of a text. -/
theorem takeWhile_sigils (cs : List Char) :
    ∃ n, cs.takeWhile (· == '$') = List.replicate n '$' := by
  refine ⟨_, List.eq_replicate_of_mem fun c hc => ?_⟩
  simpa using List.all_eq_true.1 List.all_takeWhile c hc

/-- Sigils with a name or without one are a reference. -/
theorem isReference_of_sigils (cs name : List Char) (h : NameChars name) :
    IsReference ('$' :: cs.takeWhile (· == '$') ++ name) := by
  obtain ⟨n, hn⟩ := takeWhile_sigils cs
  refine ⟨n + 1, name, ?_, h, fun h0 => absurd h0 (Nat.succ_ne_zero n)⟩
  rw [hn, List.replicate_succ]

/-- No operator is a reference, a member of the spec row or a literal. -/
theorem fits_of_operator? {cs src : List Char} {kind : TokenKind}
    (h : operator? cs = some (.token kind src)) : Fits kind src := by
  unfold operator? at h
  split at h
  case h_20 => cases h
  all_goals
    obtain ⟨rfl, rfl⟩ := Shape.token.inj (Option.some.inj h)
    trivial

/-- A token that is no quoted string fits its class. -/
theorem fits_of_next? {cs src : List Char} {kind : TokenKind}
    (h : next? cs = some (.token kind src)) : Fits kind src := by
  -- The cases are those of `next?`: the first character decides the class.
  cases cs with
  | nil => cases h
  | cons c cs =>
    simp only [next?] at h
    split at h
    · obtain ⟨rfl, rfl⟩ := Shape.token.inj (Option.some.inj h)
      trivial
    split at h
    · rename_i hsigil
      obtain ⟨rfl, rfl⟩ := Shape.token.inj (Option.some.inj h)
      subst hsigil
      exact isReference_of_sigils cs _ (nameChars_takeWhile _)
    split at h
    · rename_i hat
      split at h
      · cases h
      · rename_i hne
        obtain ⟨rfl, rfl⟩ := Shape.token.inj (Option.some.inj h)
        subst hat
        exact ⟨_, rfl, hne, nameChars_takeWhile cs⟩
    split at h
    · rename_i hstart
      obtain ⟨hkind, rfl⟩ := Shape.token.inj (Option.some.inj h)
      split at hkind
      · rename_i hword
        subst hkind
        exact .inl hword
      · rename_i hword
        subst hkind
        refine ⟨0, _, rfl, fun d hd => ?_, fun _ => ⟨?_, List.cons_ne_nil _ _, hword⟩⟩
        · rcases List.mem_cons.1 hd with rfl | hd
          · unfold isNameChar
            rw [hstart, Bool.true_or]
          · exact nameChars_takeWhile cs d hd
        · intro d hd
          obtain rfl := Option.some.inj hd
          exact hstart
    split at h
    · rename_i hdigit
      obtain ⟨rfl, rfl⟩ := Shape.token.inj (Option.some.inj h)
      exact .inr (.inl (numeral_number hdigit cs))
    split at h
    · obtain ⟨⟨body, rest⟩, _, he⟩ := Option.map_eq_some_iff.1 h
      cases he
    · exact fits_of_operator? h

end Lexeme

/-! ## Templates -/

namespace Template

/-- The references among the pieces of a template are references. -/
theorem isReference_of_mem_pieces {offset : Nat} {cs : List Char} {ps : List (Nat × Piece)}
    (h : pieces offset cs = .ok ps) {o : Nat} {src : List Char} (hp : (o, .reference src) ∈ ps) :
    IsReference src := by
  fun_induction pieces offset cs generalizing ps with
  | case1 =>
    obtain rfl := Except.ok.inj h
    cases hp
  | case2 => cases h
  | case4 => cases h
  | case3 offset c cs ih =>
    obtain ⟨rest, hrest, rfl⟩ := bind_pure_eq_ok_iff.1 h
    rcases List.mem_cons.1 hp with heq | hp
    · cases heq
    · exact ih hrest hp
  | case5 offset cs body later hsome this ih =>
    obtain ⟨rest, hrest, rfl⟩ := bind_pure_eq_ok_iff.1 h
    rcases List.mem_cons.1 hp with heq | hp
    · cases heq
    · exact ih hrest hp
  | case6 offset cs hnone ih =>
    obtain ⟨rest, hrest, rfl⟩ := bind_pure_eq_ok_iff.1 h
    rcases List.mem_cons.1 hp with heq | hp
    · cases heq
    · exact ih hrest hp
  | case7 offset cs body later hsome this ih =>
    obtain ⟨rest, hrest, rfl⟩ := bind_pure_eq_ok_iff.1 h
    rcases List.mem_cons.1 hp with heq | hp
    · -- The piece is the reference that is read here, sigils before a name.
      obtain ⟨_, hsrc⟩ := Prod.mk.inj heq
      obtain rfl := Piece.reference.inj hsrc
      simp only [reference?] at hsome
      split at hsome
      · cases hsome
      · obtain ⟨rfl, _⟩ := Prod.mk.inj (Option.some.inj hsome)
        exact isReference_of_sigils cs _ (nameChars_takeWhile _)
    · exact ih hrest hp
  | case8 offset c cs h1 h2 h3 h4 ih =>
    obtain ⟨rest, hrest, rfl⟩ := bind_pure_eq_ok_iff.1 h
    rcases List.mem_cons.1 hp with heq | hp
    · cases heq
    · exact ih hrest hp

/-- The tokens between parts: the parentheses around several and the operators that join them, and
the empty text if there are none. -/
def IsJoint (start stop : Nat) (parts : List Token) (t : Token) : Prop :=
  t = ⟨.literal, quote [], start⟩ ∨ t = ⟨.openParen, "(", start⟩ ∨ t = ⟨.closeParen, ")", stop⟩ ∨
    ∃ part ∈ parts, t = ⟨.concat, "..", part.offset⟩

/-- Joined tokens are those of the parts and the joints. -/
theorem mem_joined_cases {start stop : Nat} {parts : List Token} {t : Token}
    (h : t ∈ joined start stop parts) : t ∈ parts ∨ IsJoint start stop parts t := by
  match parts with
  | [] =>
    obtain rfl := List.mem_singleton.1 h
    exact .inr (.inl rfl)
  | [part] => exact .inl h
  | first :: second :: rest =>
    simp only [joined, List.cons_append, List.mem_cons, List.mem_append, List.mem_flatMap,
      List.not_mem_nil, or_false] at h
    rcases h with rfl | rfl | ⟨part, hpart, rfl | rfl⟩ | rfl
    · exact .inr (.inr (.inl rfl))
    · exact .inl List.mem_cons_self
    · exact .inr (.inr (.inr (.inr ⟨part, List.mem_cons_of_mem _ (List.mem_cons.2 hpart), rfl⟩)))
    · exact .inl (List.mem_cons_of_mem _ (List.mem_cons.2 hpart))
    · exact .inr (.inr (.inr (.inl rfl)))

/-- The tokens of a template are those of its parts, joined, and a part is a constant or a piece. -/
theorem exists_parts_of_tokens {offset : Nat} {cs : List Char} {ts : List Token}
    (h : tokens offset cs = .ok ts) :
    ∃ ps, pieces offset cs = .ok ps ∧
      ts = joined offset (offset + bytes cs) ((padded (ps.foldr Part.cons [])).map Part.token) := by
  rw [tokens_eq] at h
  obtain ⟨parts, hparts, he⟩ := bind_eq_ok_iff.1 h
  obtain ⟨ps, hps, rfl⟩ := bind_pure_eq_ok_iff.1 hparts
  exact ⟨ps, hps, (Except.ok.inj he).symm⟩

end Template

/-! ## Tokens -/

namespace Token

/-- The tokens of a template have texts of their classes. -/
theorem regular_of_mem_template {offset : Nat} {cs : List Char} {ts : List Token}
    (h : Template.tokens offset cs = .ok ts) {t : Token} (ht : t ∈ ts) : t.Regular := by
  have constant (run : List Char) (o : Nat) : Regular ⟨.literal, Template.quote run, o⟩ :=
    .inr (.inr ⟨run, String.ofList_toList⟩)
  obtain ⟨ps, hps, rfl⟩ := Template.exists_parts_of_tokens h
  rcases Template.mem_joined_cases ht with ht | rfl | rfl | rfl | ⟨_, _, rfl⟩
  · obtain ⟨⟨o, part⟩, hpart, rfl⟩ := List.mem_map.1 ht
    cases part with
    | text run => exact constant run o
    | reference src =>
      have hsrc := Template.isReference_of_mem_pieces hps
        (Template.mem_pieces_of_mem_padded hpart rfl)
      show IsReference (String.ofList src).toList
      rwa [String.toList_ofList]
    | interpolation src => trivial
  · exact constant [] offset
  · trivial
  · trivial
  · trivial

/-- The tokens of a source have texts of their classes. -/
theorem regular_of_mem_scan {offset : Nat} {cs : List Char} {ts : List Token}
    (h : scan offset cs = .ok ts) {t : Token} (ht : t ∈ ts) : t.Regular := by
  fun_induction scan offset cs generalizing ts with
  | case1 =>
    obtain rfl := Except.ok.inj h
    cases ht
  | case2 => cases h
  | case3 offset cs hne shape hnext ih =>
    obtain ⟨here, hhere, h⟩ := bind_eq_ok_iff.1 h
    obtain ⟨later, hlater, rfl⟩ := bind_pure_eq_ok_iff.1 h
    rcases List.mem_append.1 ht with ht | ht
    · cases shape with
      | token kind src =>
        obtain rfl := Except.ok.inj hhere
        obtain rfl := List.mem_singleton.1 ht
        show Fits kind (String.ofList src).toList
        rw [String.toList_ofList]
        exact fits_of_next? hnext
      | quoted q body => exact regular_of_mem_template hhere ht
    · exact ih hlater ht

/-- A literal that is read from a source denotes a constant. -/
theorem Regular.readable {t : Token} (h : t.Regular) (hk : t.kind = .literal) : t.Readable := by
  obtain ⟨kind, src, offset⟩ := t
  obtain rfl : kind = .literal := hk
  rcases (h : IsLiteral src.toList) with hword | hnumeral | ⟨run, hrun⟩
  · rw [String.ofList_toList] at hword
    simp only [keywords, List.mem_cons, List.not_mem_nil, or_false] at hword
    rcases hword with rfl | rfl | rfl
    · exact ⟨_, rfl⟩
    · exact ⟨_, rfl⟩
    · exact ⟨_, rfl⟩
  · obtain ⟨coefficient, exponent, hread⟩ := Decimal.read?_of_numeral hnumeral
    rw [String.ofList_toList] at hread
    unfold Readable Expr.ofLiteral
    split
    · exact ⟨_, rfl⟩
    · exact ⟨_, rfl⟩
    · exact ⟨_, rfl⟩
    · split
      · exact ⟨_, rfl⟩
      · rw [show Decimal.read? src = _ from hread]
        exact ⟨_, rfl⟩
  · rw [String.ofList_toList] at hrun
    obtain rfl := hrun
    exact ⟨_, Template.ofLiteral_quote run offset⟩

end Token

end LiveScope
