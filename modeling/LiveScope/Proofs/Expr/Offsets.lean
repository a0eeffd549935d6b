import LiveScope.Proofs.Expr.Parsing

/-!
# Where a source stands does not matter to its tree

Tokens carry the offset of their text in the outermost source, and the parser hands it on to the
sources of interpolations. Only faults show offsets. `Token.scan_at` says that a source is read as
the same lexemes wherever it stands, and `Spells.of_lexemes` that lists with the same lexemes spell
the same trees. Together with the bound on nesting this makes the source of an interpolation an
expression like any other: `Expr.ofSource_eq_ok_iff`.
-/

namespace LiveScope

/-! ## Templates -/

namespace Template

/-- The equation of `pieces` for an interpolation. -/
theorem pieces_interpolation {cs src rest : List Char} (h : interpolation? 0 cs = some (src, rest))
    (offset : Nat) : pieces offset ('{' :: '{' :: cs) = do
      return (offset + 2, .interpolation src) ::
        (← pieces (offset + Lexeme.bytes src + 4) rest) := by
  rw [pieces]
  split
  · rename_i hnone
    rw [h] at hnone
    cases hnone
  · rename_i hsome
    rw [h] at hsome
    obtain ⟨rfl, rfl⟩ := Prod.mk.inj (Option.some.inj hsome)
    rfl

/-- The equation of `pieces` for a reference. -/
theorem pieces_reference {cs src rest : List Char} (h : reference? cs = some (src, rest))
    (offset : Nat) : pieces offset ('$' :: cs) = do
      return (offset, .reference src) :: (← pieces (offset + Lexeme.bytes src) rest) := by
  rw [pieces]
  split
  · rename_i hnone
    rw [h] at hnone
    cases hnone
  · rename_i hsome
    rw [h] at hsome
    obtain ⟨rfl, rfl⟩ := Prod.mk.inj (Option.some.inj hsome)
    rfl

/-- The equation of `pieces` for a sigil that no name follows. -/
theorem pieces_sigil {cs : List Char} (h : reference? cs = none) (offset : Nat) :
    pieces offset ('$' :: cs) = do return (offset, .char '$') :: (← pieces (offset + 1) cs) := by
  rw [pieces]
  split
  · rfl
  · rename_i hsome
    rw [h] at hsome
    cases hsome

/-- The pieces of a template are the same wherever it stands. -/
theorem pieces_at {offset : Nat} {cs : List Char} {ps : List (Nat × Piece)}
    (h : pieces offset cs = .ok ps) (offset' : Nat) :
    ∃ ps', pieces offset' cs = .ok ps' ∧ ps'.map Prod.snd = ps.map Prod.snd := by
  -- A piece in front of those that follow, which are the same.
  have cons {x : Except Fault (List (Nat × Piece))} {piece : Piece} {o o' : Nat}
      {rest rest' : List (Nat × Piece)}
      (hx : x = .ok rest') (hrest : rest'.map Prod.snd = rest.map Prod.snd) :
      ∃ ps', (do return (o', piece) :: (← x) : Except Fault (List (Nat × Piece))) = .ok ps' ∧
        ps'.map Prod.snd = ((o, piece) :: rest).map Prod.snd := by
    subst hx
    exact ⟨(o', piece) :: rest', rfl, by rw [List.map_cons, List.map_cons, hrest]⟩
  fun_induction pieces offset cs generalizing ps offset' with
  | case1 =>
    obtain rfl := Except.ok.inj h
    exact ⟨[], by rw [pieces], rfl⟩
  | case2 => cases h
  | case3 offset c cs ih =>
    obtain ⟨rest, hrest, rfl⟩ := bind_pure_eq_ok_iff.1 h
    obtain ⟨rest', hrest', hsame⟩ := ih hrest (offset' + Lexeme.bytes ['\\', c])
    rw [pieces]
    exact cons hrest' hsame
  | case4 offset cs hnone => cases h
  | case5 offset cs src later hsome this ih =>
    obtain ⟨rest, hrest, rfl⟩ := bind_pure_eq_ok_iff.1 h
    obtain ⟨rest', hrest', hsame⟩ := ih hrest (offset' + Lexeme.bytes src + 4)
    rw [pieces_interpolation hsome]
    exact cons hrest' hsame
  | case6 offset cs hnone ih =>
    obtain ⟨rest, hrest, rfl⟩ := bind_pure_eq_ok_iff.1 h
    obtain ⟨rest', hrest', hsame⟩ := ih hrest (offset' + 1)
    rw [pieces_sigil hnone]
    exact cons hrest' hsame
  | case7 offset cs src later hsome this ih =>
    obtain ⟨rest, hrest, rfl⟩ := bind_pure_eq_ok_iff.1 h
    obtain ⟨rest', hrest', hsame⟩ := ih hrest (offset' + Lexeme.bytes src)
    rw [pieces_reference hsome]
    exact cons hrest' hsame
  | case8 offset c cs h1 h2 h3 h4 ih =>
    obtain ⟨rest, hrest, rfl⟩ := bind_pure_eq_ok_iff.1 h
    obtain ⟨rest', hrest', hsame⟩ := ih hrest (offset' + Lexeme.bytes [c])
    rw [pieces]
    · exact cons hrest' hsame
    all_goals assumption

/-- A piece joins the parts that follow it in the same way wherever they stand. -/
theorem map_snd_cons {p p' : Nat × Piece} {parts parts' : List (Nat × Part)} (hp : p'.2 = p.2)
    (h : parts'.map Prod.snd = parts.map Prod.snd) :
    (Part.cons p' parts').map Prod.snd = (Part.cons p parts).map Prod.snd := by
  obtain ⟨o, piece⟩ := p
  obtain ⟨o', piece'⟩ := p'
  obtain rfl : piece' = piece := hp
  cases piece' with
  | reference src | interpolation src =>
    unfold Part.cons
    rw [List.map_cons, List.map_cons, h]
  | char c =>
    -- Whether the next part is a text is seen without its offset.
    match parts, parts' with
    | [], [] => rfl
    | (_, part) :: rest, (_, part') :: rest' =>
      obtain ⟨hpart, hrest⟩ := List.cons.inj h
      obtain rfl : part' = part := hpart
      cases part' with
      | text cs => exact congrArg (Part.text (c :: cs) :: ·) hrest
      | reference src => exact congrArg (Part.text [c] :: .reference src :: ·) hrest
      | interpolation src => exact congrArg (Part.text [c] :: .interpolation src :: ·) hrest

/-- The parts of a template are the same wherever it stands. -/
theorem parts_at {offset : Nat} {cs : List Char} {ps : List (Nat × Part)}
    (h : parts offset cs = .ok ps) (offset' : Nat) :
    ∃ ps', parts offset' cs = .ok ps' ∧ ps'.map Prod.snd = ps.map Prod.snd := by
  obtain ⟨pieces, hpieces, rfl⟩ := bind_pure_eq_ok_iff.1 h
  obtain ⟨pieces', hpieces', hsame⟩ := pieces_at hpieces offset'
  refine ⟨pieces'.foldr Part.cons [], bind_eq_ok_iff.2 ⟨pieces', hpieces', rfl⟩, ?_⟩
  clear h hpieces hpieces'
  induction pieces generalizing pieces' with
  | nil =>
    obtain rfl := List.map_eq_nil_iff.1 hsame
    rfl
  | cons p pieces ih =>
    obtain ⟨p', pieces', rfl, hp, hrest⟩ := List.map_eq_cons_iff.1 hsame
    exact map_snd_cons hp (ih pieces' hrest)

/-- Tokens joined by `..`, in parentheses if there are several; a lone empty text if there are
none. -/
def joined (start stop : Nat) : List Token → List Token
  | [] => [⟨.literal, quote [], start⟩]
  | [token] => [token]
  | first :: second :: rest =>
    ⟨.openParen, "(", start⟩ ::
      (first :: (second :: rest).flatMap fun token => [⟨.concat, "..", token.offset⟩, token]) ++
        [⟨.closeParen, ")", stop⟩]

/-- The tokens of a template are those of its parts, joined. -/
theorem tokens_eq (offset : Nat) (cs : List Char) :
    tokens offset cs = do
      return joined offset (offset + Lexeme.bytes cs)
        ((padded (← parts offset cs)).map Part.token) := by
  unfold tokens
  cases parts offset cs with
  | error => rfl
  | ok ps =>
    dsimp only [bind, Except.bind]
    generalize (padded ps).map Part.token = ts
    cases ts with
    | nil => rfl
    | cons first rest => cases rest <;> rfl

/-- What is put before a lone reference does not depend on where it stands. -/
theorem map_snd_padded (ps : List (Nat × Part)) :
    (padded ps).map Prod.snd = match ps.map Prod.snd with
      | [.reference src] => [.text [], .reference src]
      | parts => parts := by
  match ps with
  | [] | [(_, .text _)] | [(_, .reference _)] | [(_, .interpolation _)] => rfl
  | (_, .text _) :: _ :: _ | (_, .reference _) :: _ :: _ | (_, .interpolation _) :: _ :: _ => rfl

end Template

/-! ## Lexemes -/

namespace Token

/-- A token without its place. -/
def lexeme (t : Token) : TokenKind × String := (t.kind, t.src)

/-- Lists with the same lexemes have the same lexemes besides blanks. -/
theorem lexemes_visible {ts us : List Token} (h : us.map lexeme = ts.map lexeme) :
    (visible us).map lexeme = (visible ts).map lexeme := by
  have hfilter (ts : List Token) :
      (visible ts).map lexeme = (ts.map lexeme).filter fun x => x.1 != .space := by
    rw [List.filter_map]
    rfl
  rw [hfilter, hfilter, h]

/-- Joining puts the same lexemes between the same lexemes. -/
theorem lexemes_joined {ts us : List Token} (h : us.map lexeme = ts.map lexeme)
    (start stop start' stop' : Nat) :
    (Template.joined start' stop' us).map lexeme = (Template.joined start stop ts).map lexeme := by
  have hrest (ts : List Token) :
      (ts.flatMap fun token => [⟨.concat, "..", token.offset⟩, token]).map lexeme =
        (ts.map lexeme).flatMap fun x => [(.concat, ".."), x] := by
    rw [List.map_flatMap, List.flatMap_map]
    rfl
  match ts with
  | [] =>
    obtain rfl := List.map_eq_nil_iff.1 h
    rfl
  | [t] =>
    obtain ⟨u, us, rfl, hu, hnil⟩ := List.map_eq_cons_iff.1 h
    obtain rfl := List.map_eq_nil_iff.1 hnil
    exact h
  | t :: t' :: ts =>
    obtain ⟨u, us, rfl, hu, h'⟩ := List.map_eq_cons_iff.1 h
    obtain ⟨u', us, rfl, hu', hlater⟩ := List.map_eq_cons_iff.1 h'
    simp only [Template.joined, List.map_append, List.map_cons, hrest, hu, hu', hlater]
    rfl

/-- A template is read as the same lexemes wherever it stands. -/
theorem templateTokens_at {offset : Nat} {cs : List Char} {ts : List Token}
    (h : Template.tokens offset cs = .ok ts) (offset' : Nat) :
    ∃ us, Template.tokens offset' cs = .ok us ∧ us.map lexeme = ts.map lexeme := by
  rw [Template.tokens_eq] at h
  obtain ⟨parts, hparts, rfl⟩ := bind_pure_eq_ok_iff.1 h
  obtain ⟨parts', hparts', hsame⟩ := Template.parts_at hparts offset'
  refine ⟨Template.joined offset' (offset' + Lexeme.bytes cs)
    ((Template.padded parts').map Template.Part.token), ?_, lexemes_joined ?_ _ _ _ _⟩
  · rw [Template.tokens_eq, hparts']
    rfl
  · have hlexeme (ps : List (Nat × Template.Part)) : (ps.map Template.Part.token).map lexeme =
        (ps.map Prod.snd).map fun part => (Template.Part.token (0, part)).lexeme := by
      rw [List.map_map, List.map_map]
      refine List.map_congr_left fun p _ => ?_
      obtain ⟨_, part⟩ := p
      cases part <;> rfl
    rw [hlexeme, hlexeme, Template.map_snd_padded, Template.map_snd_padded, hsame]

/-- A source is read as the same lexemes wherever it stands. -/
theorem scan_at {offset : Nat} {cs : List Char} {ts : List Token} (h : scan offset cs = .ok ts)
    (offset' : Nat) : ∃ us, scan offset' cs = .ok us ∧ us.map lexeme = ts.map lexeme := by
  fun_induction scan offset cs generalizing ts offset' with
  | case1 offset cs hnil =>
    refine ⟨[], ?_, ?_⟩
    · rw [scan, if_pos hnil]
    · rw [← Except.ok.inj h]
  | case2 => cases h
  | case3 offset cs hne shape hnext ih =>
    obtain ⟨here, hhere, h⟩ := bind_eq_ok_iff.1 h
    obtain ⟨later, hlater, rfl⟩ := bind_pure_eq_ok_iff.1 h
    have hshape : ∃ here', ofShape offset' shape = .ok here' ∧
        here'.map lexeme = here.map lexeme := by
      cases shape with
      | token kind src =>
        obtain rfl := Except.ok.inj hhere
        exact ⟨_, rfl, rfl⟩
      | quoted q body => exact templateTokens_at hhere _
    obtain ⟨here', hhere', hsame⟩ := hshape
    obtain ⟨later', hlater', hsame'⟩ := ih hlater (offset' + Lexeme.bytes shape.src)
    refine ⟨here' ++ later', ?_, by rw [List.map_append, List.map_append, hsame, hsame']⟩
    rw [scan, if_neg hne]
    split
    · rename_i hnone
      rw [hnext] at hnone
      cases hnone
    · rename_i shape' hnext'
      obtain rfl := Option.some.inj (hnext.symm.trans hnext')
      exact bind_eq_ok_iff.2 ⟨_, hhere', bind_eq_ok_iff.2 ⟨_, hlater', rfl⟩⟩

end Token

/-! ## Trees -/

/-- Literals with the same text denote the same constant. -/
theorem Expr.ofLiteral_toOption {t u : Token} (h : u.src = t.src) :
    (Expr.ofLiteral u).toOption = (Expr.ofLiteral t).toOption := by
  unfold Expr.ofLiteral
  rw [h]
  split
  · rfl
  · rfl
  · rfl
  · split
    · rfl
    · split <;> rfl

/-- Lists with the same lexemes spell the same trees. -/
theorem Spells.of_lexemes {e : Expr} {ts us : List Token} (h : Spells e ts)
    (hsame : us.map Token.lexeme = ts.map Token.lexeme) : Spells e us := by
  -- What spells a leaf or stands at either end of a group is one token.
  have lone {t : Token} {us : List Token} (h : us.map Token.lexeme = [t].map Token.lexeme) :
      ∃ u, us = [u] ∧ u.kind = t.kind ∧ u.src = t.src := by
    obtain ⟨u, us, rfl, hu, hnil⟩ := List.map_eq_cons_iff.1 h
    exact ⟨u, by rw [List.map_eq_nil_iff.1 hnil], Prod.mk.inj hu⟩
  induction h generalizing us with
  | @leaf t e tree =>
    obtain ⟨u, rfl, hkind, hsrc⟩ := lone hsame
    refine .leaf ?_
    rw [← tree]
    unfold Token.leaf?
    rw [hkind, hsrc, Expr.ofLiteral_toOption hsrc]
  | @interpolation t ts e kind scan body ih =>
    obtain ⟨u, rfl, hkind, hsrc⟩ := lone hsame
    obtain ⟨ts', hscan, hlexemes⟩ := Token.scan_at scan u.offset
    exact .interpolation (hkind.trans kind) (hsrc ▸ hscan) (ih (Token.lexemes_visible hlexemes))
  | @group first last ts e opens closes body ih =>
    obtain ⟨us', ls, rfl, hus, hls⟩ := List.map_eq_append_iff.1 (hsame.trans List.map_append)
    obtain ⟨f, us', rfl, hf, hbody⟩ := List.map_eq_cons_iff.1 hus
    obtain ⟨l, rfl, hlast, _⟩ := lone hls
    exact .group ((Prod.mk.inj hf).1.trans opens) (hlast.trans closes) (ih hbody)
  | @unary t ts op e op_eq operand ih =>
    obtain ⟨u, us, rfl, hu, hoperand⟩ := List.map_eq_cons_iff.1 hsame
    obtain ⟨hkind, hsrc⟩ := Prod.mk.inj hu
    refine .unary ?_ (ih hoperand)
    rw [← op_eq]
    unfold Token.unaryOp?
    rw [hkind, hsrc]
  | @binary t ts us op l r left op_eq right ihl ihr =>
    obtain ⟨ls, rs, rfl, hls, hrs⟩ := List.map_eq_append_iff.1 (hsame.trans List.map_append)
    obtain ⟨u, rs, rfl, hu, hright⟩ := List.map_eq_cons_iff.1 hrs
    obtain ⟨hkind, hsrc⟩ := Prod.mk.inj hu
    refine .binary (ihl hls) ?_ (ihr hright)
    rw [← op_eq]
    unfold Token.binaryOp?
    rw [hkind, hsrc]

namespace Expr

/-- Lists with the same lexemes are parsed as the same tree. -/
theorem parse_of_lexemes {ts us : List Token} {e : Expr} (hwell : ∀ t ∈ ts, t.WellSpelled)
    (h : parse ts = .ok e) (hsame : us.map Token.lexeme = ts.map Token.lexeme) :
    parse us = .ok e := by
  have htree := Parser.run_isTree hwell h
  have hspells := htree.spells.of_lexemes (Token.lexemes_visible hsame)
  exact (parse_gives hspells htree.wellGrouped).resolve_right fun h => h.1 htree.branched

/-- A source is an expression if its tokens, read at any place, have a tree. Three levels of
interpolations are enough for that, for each level uses up one of the quotes. -/
theorem ofSource_eq_ok_iff (src : String) (e : Expr) (offset : Nat) :
    ofSource src = .ok e ↔
      ∃ ts, Token.scan offset src.toList = .ok ts ∧ Parser.IsTree e (Token.visible ts) := by
  constructor
  · intro h
    obtain ⟨us, hscan, hparse⟩ := bind_eq_ok_iff.1 h
    obtain ⟨ts, hscan', hsame⟩ := Token.scan_at hscan offset
    have hparse' := parse_of_lexemes (fun u hu => (Token.mem_scan hscan hu).1) hparse hsame
    exact ⟨ts, hscan', Parser.run_isTree (fun t ht => (Token.mem_scan hscan' ht).1) hparse'⟩
  · rintro ⟨ts, hscan, htree⟩
    obtain ⟨us, hscan', hsame⟩ := Token.scan_at hscan 0
    have hparse := (parse_gives htree.spells htree.wellGrouped).resolve_right
      fun h => h.1 htree.branched
    refine bind_eq_ok_iff.2 ⟨us, hscan', ?_⟩
    exact parse_of_lexemes (fun t ht => (Token.mem_scan hscan ht).1) hparse hsame

end Expr

end LiveScope
