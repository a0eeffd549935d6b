import LiveScope.Proofs.Decimal.Rereading
import LiveScope.Proofs.Expr.Scanning
import LiveScope.Proofs.Template.Quoting

/-!
# The shown form of an expression is faithful

`Expr.display` was made for diagnostics, and the parser was made without it. `Expr.ofSource_display`
says that the two fit: what is shown of a tree that was read is read as the same tree, up to its
groups. It holds for trees without ternaries, infinities and texts that do not come back as they are
shown (`Expr.Plain`).

What is read is known exactly: the groups of the tree are not shown, and every infix node gets
parentheses and so a group of its own (`Expr.regrouped`). Such a tree is well grouped whatever its
operators are, so only its spelling has to be found. That goes by the tree (`Expr.readsAs_display`):
the text of a subtree is read by itself, since a blank or a closing parenthesis comes after it.
-/

namespace LiveScope

open Lexeme

namespace Expr

/-- Whether a tree has no ternary, and only numbers and texts that can be shown. -/
def Plain : Expr → Prop
  | literal (.number x) => x.isFinite = true
  | literal (.text s) => Text.Showable s.toList
  | literal _ | reference _ | property _ => True
  | unary _ e => e.Plain
  | binary op l r => (op ≠ .question ∧ op ≠ .colon) ∧ l.Plain ∧ r.Plain

/-- The tree without its groups. -/
def ungrouped : Expr → Expr
  | unary .group e => e.ungrouped
  | unary op e => unary op e.ungrouped
  | binary op l r => binary op l.ungrouped r.ungrouped
  | e => e

/-- The tree with a group around every infix node and no others. -/
def regrouped : Expr → Expr
  | unary .group e => e.regrouped
  | unary op e => unary op e.regrouped
  | binary op l r => unary .group (binary op l.regrouped r.regrouped)
  | e => e

/-! ## Groups -/

/-- Moving the groups makes no difference to the rest of the tree. -/
theorem ungrouped_regrouped (e : Expr) : e.regrouped.ungrouped = e.ungrouped := by
  induction e with
  | literal | reference | property => rfl
  | unary op e ih => cases op <;> simp only [regrouped, ungrouped, ih]
  | binary op l r ihl ihr => simp only [regrouped, ungrouped, ihl, ihr]

/-- The root of a regrouped tree is no infix node. -/
theorem root?_regrouped (e : Expr) : e.regrouped.root? = none := by
  induction e with
  | literal | reference | property | binary => rfl
  | unary op e ih =>
    cases op with
    | group => exact ih
    | not | negate | plus => rfl

/-- A regrouped tree is nested by precedence, for no infix node is an operand of another one. -/
theorem wellGrouped_regrouped (e : Expr) : e.regrouped.WellGrouped := by
  induction e with
  | literal | reference | property => trivial
  | unary op e ih =>
    cases op with
    | group => exact ih
    | not | negate | plus => exact ⟨ih, fun _ => root?_regrouped e⟩
  | binary op l r ihl ihr =>
    refine ⟨⟨ihl, ihr, fun inner h => ?_, fun inner h => ?_⟩, fun h => absurd rfl h⟩
    · rw [root?_regrouped] at h
      cases h
    · rw [root?_regrouped] at h
      cases h

/-- A tree without ternaries needs no branches. -/
theorem branched_regrouped {e : Expr} (h : e.Plain) : e.regrouped.Branched := by
  induction e with
  | literal | reference | property => trivial
  | unary op e ih =>
    cases op with
    | group | not | negate | plus => exact ih h
  | binary op l r ihl ihr => exact ⟨ihl h.2.1, ihr h.2.2, fun hop => absurd hop h.1.1⟩

/-- An infix node without ternaries is evaluated through its operands. -/
theorem eval_binary_congr {op : BinaryOp} (hop : op ≠ .question ∧ op ≠ .colon) {m : Model}
    {data row : Value} {l r l' r' : Expr} (hl : l.eval m data row = l'.eval m data row)
    (hr : r.eval m data row = r'.eval m data row) :
    (binary op l r).eval m data row = (binary op l' r').eval m data row := by
  cases op with
  | question => exact absurd rfl hop.1
  | colon => exact absurd rfl hop.2
  | _ => simp only [eval, hl, hr]

/-- Groups make no difference to the value of a tree without ternaries. -/
theorem eval_ungrouped {e : Expr} (h : e.Plain) (m : Model) (data row : Value) :
    e.ungrouped.eval m data row = e.eval m data row := by
  induction e with
  | literal | reference | property => rfl
  | unary op e ih =>
    cases op with
    | group =>
      have hgroup : (unary .group e).eval m data row = e.eval m data row := by
        show (do return UnaryOp.group.apply (← e.eval m data row)) = _
        cases e.eval m data row <;> rfl
      rw [hgroup, ← ih h]
      rfl
    | not | negate | plus => simp only [ungrouped, eval, ih h]
  | binary op l r ihl ihr => exact eval_binary_congr h.1 (ihl h.2.1) (ihr h.2.2)

/-! ## Texts -/

/-- A prefix operator is read by itself before anything that it does not make a comparison with. -/
theorem scans_unary {op : UnaryOp} (hop : op ≠ .group) {rest : List Char}
    (hrest : ∀ c ∈ rest.head?, c ≠ '=') (offset : Nat) :
    ∃ t : Token, t.unaryOp? = some op ∧ t.kind ≠ .space ∧
      Token.Scans offset op.symbol.toList rest [t] := by
  cases op with
  | group => exact absurd rfl hop
  | not =>
    refine ⟨⟨.negation, "!", offset⟩, rfl, by simp, .of_next? ?_⟩
    show operator? ('!' :: rest) = some (.token .negation ['!'])
    unfold operator?
    split
    case h_2 heq =>
      rw [(List.cons.inj heq).2] at hrest
      exact absurd rfl (hrest '=' rfl)
    case h_15 => rfl
    all_goals simp_all
  | negate => exact ⟨⟨.additive, "-", offset⟩, rfl, by simp, .of_next? rfl⟩
  | plus => exact ⟨⟨.additive, "+", offset⟩, rfl, by simp, .of_next? rfl⟩

/-- An infix operator is read by itself between blanks. -/
theorem scans_binary (op : BinaryOp) {rest : List Char}
    (hrest : ∀ c ∈ rest.head?, Text.isBlank c = false) (offset : Nat) :
    ∃ (t : Token) (ts : List Token), t.binaryOp? = some op ∧ Token.visible ts = [t] ∧
      Token.Scans offset (' ' :: op.symbol.toList ++ [' ']) rest ts := by
  have hblank {cs : List Char} (hcs : ∀ c ∈ cs.head?, Text.isBlank c = false) (o : Nat) :
      Token.Scans o [' '] cs [⟨.space, " ", o⟩] := by
    refine .of_next? ?_
    have htake : ([] ++ cs).takeWhile Text.isBlank = [] := takeWhile_append_head (by simp) hcs
    rw [List.nil_append] at htake
    show some (Shape.token .space (' ' :: cs.takeWhile Text.isBlank)) = _
    rw [htake]
  obtain ⟨kind, hop, hspace, hnext⟩ : ∃ kind,
      Token.binaryOp? ⟨kind, op.symbol, offset + bytes [' ']⟩ = some op ∧ kind ≠ .space ∧
        next? (op.symbol.toList ++ ' ' :: rest) = some (.token kind op.symbol.toList) := by
    cases op <;> exact ⟨_, rfl, by simp, rfl⟩
  have hsymbol : ∀ c ∈ (op.symbol.toList ++ ' ' :: rest).head?, Text.isBlank c = false := by
    intro c hc
    cases op <;> (obtain rfl := Option.some.inj hc; rfl)
  have hscans := ((hblank (by simpa using hsymbol) offset).append (.of_next? hnext)).append
    (hblank hrest _)
  rw [String.ofList_toList] at hscans
  refine ⟨_, _, hop, ?_, hscans⟩
  simp [Token.visible, hspace]

/-- Whether a text is read by itself as the tokens of a tree, if a delimiter comes after it. -/
def ReadsAs (cs : List Char) (e : Expr) : Prop :=
  ∀ offset rest, Delimits rest → ∃ ts, Spells e (Token.visible ts) ∧ Token.Scans offset cs rest ts

namespace ReadsAs

variable {cs ds : List Char} {l r e : Expr}

/-- A leaf is one token. -/
theorem leaf (h : ∀ offset rest, Delimits rest → ∃ t : Token, t.kind ≠ .space ∧ t.leaf? = some e ∧
    Token.Scans offset cs rest [t]) : ReadsAs cs e := by
  intro offset rest hrest
  obtain ⟨t, hspace, ht, hscans⟩ := h offset rest hrest
  refine ⟨[t], ?_, hscans⟩
  rw [Token.visible, List.filter_cons_of_pos (by simpa using hspace), List.filter_nil]
  exact .leaf ht

/-- A prefix operator before an operand. -/
theorem unary {op : UnaryOp} (hop : op ≠ .group) (hcs : ReadsAs cs e)
    (hhead : ∃ c cs', cs = c :: cs' ∧ c ≠ '=') :
    ReadsAs (op.symbol.toList ++ cs) (unary op e) := by
  intro offset rest hrest
  have hnext : ∀ d ∈ (cs ++ rest).head?, d ≠ '=' := by
    obtain ⟨c, cs, rfl, hc⟩ := hhead
    intro d hd
    obtain rfl := Option.some.inj hd
    exact hc
  obtain ⟨t, ht, hspace, hsymbol⟩ := scans_unary hop hnext offset
  obtain ⟨ts, hspells, hscans⟩ := hcs (offset + bytes op.symbol.toList) rest hrest
  refine ⟨[t] ++ ts, ?_, hsymbol.append hscans⟩
  rw [List.singleton_append, Token.visible, List.filter_cons_of_pos (by simpa using hspace)]
  exact .unary ht hspells

/-- Two operands around an infix operator, in parentheses. -/
theorem binary (op : BinaryOp) (hcs : ReadsAs cs l) (hds : ReadsAs ds r)
    (hhead : ∃ d ds', ds = d :: ds' ∧ Text.isBlank d = false) :
    ReadsAs (['('] ++ (cs ++ (' ' :: op.symbol.toList ++ [' '] ++ (ds ++ [')']))))
      (.unary .group (binary op l r)) := by
  intro offset rest _
  have hclose : Delimits ([')'] ++ rest) := by
    intro d hd
    obtain rfl := Option.some.inj hd
    exact .inr rfl
  have hblank : Delimits (' ' :: op.symbol.toList ++ [' '] ++ (ds ++ [')']) ++ rest) := by
    intro d hd
    obtain rfl := Option.some.inj hd
    exact .inl rfl
  have hnext : ∀ d ∈ (ds ++ [')'] ++ rest).head?, Text.isBlank d = false := by
    obtain ⟨d, ds, rfl, hd⟩ := hhead
    intro d' hd'
    obtain rfl := Option.some.inj hd'
    exact hd
  -- The text falls into five pieces, each of which is read by itself.
  have hopen : Token.Scans offset ['(']
      (cs ++ (' ' :: op.symbol.toList ++ [' '] ++ (ds ++ [')'])) ++ rest)
      [⟨.openParen, "(", offset⟩] := .of_next? rfl
  obtain ⟨ls, hls, hscansl⟩ := hcs (offset + bytes ['(']) _ hblank
  obtain ⟨t, os, ht, hos, hscanso⟩ := scans_binary op hnext (offset + bytes ['('] + bytes cs)
  obtain ⟨rs, hrs, hscansr⟩ := hds
    (offset + bytes ['('] + bytes cs + bytes (' ' :: op.symbol.toList ++ [' '])) _ hclose
  have hend (o : Nat) : Token.Scans o [')'] rest [⟨.closeParen, ")", o⟩] := .of_next? rfl
  refine ⟨_, ?_, hopen.append (hscansl.append (hscanso.append (hscansr.append (hend _))))⟩
  unfold Token.visible at hls hos hrs ⊢
  rw [List.filter_append, List.filter_append, List.filter_append, List.filter_append, hos]
  have hgroup (o : Nat) := @Spells.group ⟨.openParen, "(", offset⟩ ⟨.closeParen, ")", o⟩ _ _ rfl rfl
    (hls.binary ht hrs)
  simpa using hgroup _

end ReadsAs

/-- What is shown of a tree starts with no blank and with no equals sign. -/
theorem display_head {e : Expr} (hl : e.Legible) (hp : e.Plain) :
    ∃ c cs, e.display.toList = c :: cs ∧ Text.isBlank c = false ∧ c ≠ '=' := by
  induction e with
  | literal v =>
    cases v with
    | null => exact ⟨'n', _, rfl, rfl, by decide⟩
    | bool b => cases b <;> exact ⟨_, _, rfl, rfl, by decide⟩
    | number x =>
      obtain ⟨_, _, hx⟩ := hl
      obtain ⟨_, _, ⟨whole, fraction, htext, hne, hwhole, _⟩, _⟩ := Number.exists_writes hp hx
      obtain ⟨d, ds, rfl⟩ := List.exists_cons_of_ne_nil hne
      obtain ⟨hblank, _, _, heq, _⟩ := ne_of_isDigit (hwhole d List.mem_cons_self)
      exact ⟨d, _, htext, hblank, heq⟩
    | text s =>
      refine ⟨'"', s.toList.flatMap Text.escape ++ ['"'], ?_, rfl, by decide⟩
      exact String.toList_ofList
  | reference n =>
    obtain ⟨⟨sigils, name, htext, _, hbare⟩, _⟩ := hl
    cases sigils with
    | succ k => exact ⟨'$', _, htext, rfl, by decide⟩
    | zero =>
      obtain ⟨hstart, hne, _⟩ := hbare rfl
      obtain ⟨c, cs, rfl⟩ := List.exists_cons_of_ne_nil hne
      obtain ⟨hblank, _, _, heq⟩ := ne_of_isNameStart (hstart c rfl)
      exact ⟨c, cs, htext, hblank, heq⟩
  | property name => exact ⟨'@', name.toList, by simp [display], rfl, by decide⟩
  | unary op e ih =>
    cases op with
    | group => simpa [display, UnaryOp.symbol] using ih hl hp
    | not => exact ⟨'!', e.display.toList, by simp [display, UnaryOp.symbol], rfl, by decide⟩
    | negate => exact ⟨'-', e.display.toList, by simp [display, UnaryOp.symbol], rfl, by decide⟩
    | plus => exact ⟨'+', e.display.toList, by simp [display, UnaryOp.symbol], rfl, by decide⟩
  | binary op l r => exact ⟨'(', _, by simp [display]; rfl, rfl, by decide⟩

/-- What is read from a number is that number. -/
theorem ofLiteral_number {src : String} {x : Float}
    (hhead : ∀ c ∈ src.toList.head?, isDigit c = true) (hread : Decimal.read? src = some x)
    (offset : Nat) :
    ofLiteral ⟨.literal, src, offset⟩ = .ok (literal (.number x)) := by
  unfold ofLiteral
  split
  · rename_i h
    exact absurd (hhead 't' (by rw [show src = "true" from h]; rfl)) (by decide)
  · rename_i h
    exact absurd (hhead 'f' (by rw [show src = "false" from h]; rfl)) (by decide)
  · rename_i h
    exact absurd (hhead 'n' (by rw [show src = "null" from h]; rfl)) (by decide)
  · have hquote : ¬ src.toList.head?.any isQuote = true := by
      rw [Option.any_eq_true]
      rintro ⟨c, hc, hq⟩
      have hd := hhead c hc
      simp only [isQuote, Bool.or_eq_true, beq_iff_eq] at hq
      rcases hq with (rfl | rfl) | rfl <;> exact absurd hd (by decide)
    rw [if_neg hquote]
    simp only [hread]

/-- A constant is read by itself. -/
theorem scans_literal {v : Literal} (hl : (literal v).Legible) (hp : (literal v).Plain)
    (offset : Nat) {rest : List Char} (hrest : Delimits rest) :
    ∃ t : Token, t.kind = .literal ∧ t.leaf? = some (literal v) ∧
      Token.Scans offset v.display.toList rest [t] := by
  cases v with
  | null =>
    have hword : ∀ c ∈ ['u', 'l', 'l'], isNameChar c = true := List.all_eq_true.1 rfl
    exact ⟨⟨.literal, "null", offset⟩, rfl, rfl, .of_next? (next?_word rfl hword hrest)⟩
  | bool b =>
    cases b with
    | true =>
      have hword : ∀ c ∈ ['r', 'u', 'e'], isNameChar c = true := List.all_eq_true.1 rfl
      exact ⟨⟨.literal, "true", offset⟩, rfl, rfl, .of_next? (next?_word rfl hword hrest)⟩
    | false =>
      have hword : ∀ c ∈ ['a', 'l', 's', 'e'], isNameChar c = true := List.all_eq_true.1 rfl
      exact ⟨⟨.literal, "false", offset⟩, rfl, rfl, .of_next? (next?_word rfl hword hrest)⟩
  | number x =>
    -- A plain number is written by digits alone, with a fraction at most, so that it is one lexeme.
    obtain ⟨_, _, hx⟩ := hl
    obtain ⟨_, _, ⟨whole, fraction, htext, hne, hwhole, hfraction, _⟩, _⟩ :=
      Number.exists_writes hp hx
    have hhead : ∀ c ∈ (Number.text x).toList.head?, isDigit c = true := by
      obtain ⟨d, ds, rfl⟩ := List.exists_cons_of_ne_nil hne
      rw [htext]
      intro c hc
      obtain rfl := Option.some.inj hc
      exact hwhole d List.mem_cons_self
    have hscans : Token.Scans offset (Number.text x).toList rest
        [⟨.literal, Number.text x, offset⟩] := by
      have hnext := next?_number hne hwhole hfraction hrest
      rw [← htext] at hnext
      have hscans : Token.Scans offset _ rest _ := .of_next? hnext
      rwa [String.ofList_toList] at hscans
    refine ⟨_, rfl, ?_, hscans⟩
    show (ofLiteral ⟨.literal, Number.text x, offset⟩).toOption = _
    rw [ofLiteral_number hhead (Number.read?_text hp hx)]
    rfl
  | text s =>
    -- The quoted text ends at its last quote, and the template in it is a constant.
    obtain ⟨o, htokens⟩ := Text.tokens_escape (offset + 1) hp
    have hbody : quotedBody? '"' (s.toList.flatMap Text.escape ++ '"' :: rest) =
        some (s.toList.flatMap Text.escape, rest) := by
      have hread := (Text.passes_escape hp).eq_some (quotedBody?_quote rfl rest)
      rwa [List.append_nil] at hread
    have hscans : Token.Scans offset (Shape.quoted '"' (s.toList.flatMap Text.escape)).src rest
        [⟨.literal, Template.quote s.toList, o⟩] := .of_shape (next?_quoted rfl hbody) htokens
    refine ⟨⟨.literal, Template.quote s.toList, o⟩, rfl, ?_, ?_⟩
    · show (ofLiteral ⟨.literal, Template.quote s.toList, o⟩).toOption = _
      rw [Template.ofLiteral_quote, String.ofList_toList]
      rfl
    · show Token.Scans offset (Text.quoted s).toList rest _
      unfold Text.quoted
      rw [String.toList_ofList]
      exact hscans

/-- What is shown of a tree is read by itself as the regrouped tree. -/
theorem readsAs_display {e : Expr} (hl : e.Legible) (hp : e.Plain) :
    ReadsAs e.display.toList e.regrouped := by
  induction e with
  | literal v =>
    refine .leaf fun offset rest hrest => ?_
    obtain ⟨t, hk, ht, hscans⟩ := scans_literal hl hp offset hrest
    exact ⟨t, by simp [hk], ht, hscans⟩
  | reference n =>
    refine .leaf fun offset rest hrest =>
      ⟨_, ?_, ?_, .of_next? (next?_reference hl.1 hrest)⟩
    · simp
    · show some (reference (.ofString (String.ofList n.text.toList))) = _
      rw [String.ofList_toList, ScopedName.ofString_text hl.2]
      rfl
  | property name =>
    have htext : (property name).display.toList = '@' :: name.toList := by simp [display]
    rw [htext]
    refine .leaf fun offset rest hrest =>
      ⟨_, ?_, ?_, .of_next? (next?_property hl hrest)⟩
    · simp
    · show some (ofProperty (String.ofList ('@' :: name.toList))) = _
      obtain ⟨name', hname, hne, hchars⟩ := hl
      obtain ⟨c, cs, rfl⟩ := List.exists_cons_of_ne_nil hne
      -- The name has no sigil of its own that would be dropped with the first one.
      have hdrop : ('@' :: name.toList).dropWhile (· == '@') = name.toList := by
        rw [(List.cons.inj hname).2, List.dropWhile_cons_of_pos rfl, List.dropWhile_cons_of_neg]
        rw [beq_iff_eq]
        rintro rfl
        exact absurd (hchars '@' List.mem_cons_self) (by decide)
      rw [ofProperty, String.toList_ofList, hdrop, String.ofList_toList]
      rfl
  | unary op e ih =>
    by_cases hop : op = .group
    · -- Of a group only what is in it is shown.
      subst hop
      have htext : (unary .group e).display.toList = e.display.toList := by
        simp [display, UnaryOp.symbol]
      rw [htext]
      exact ih hl hp
    · obtain ⟨c, cs, hhead, _, hc⟩ := display_head (e := e) hl hp
      have hregroup : (unary op e).regrouped = unary op e.regrouped := by
        cases op with
        | group => exact absurd rfl hop
        | not | negate | plus => rfl
      have htext : (unary op e).display.toList = op.symbol.toList ++ e.display.toList :=
        String.toList_append
      rw [hregroup, htext]
      exact (ih hl hp).unary hop ⟨c, cs, hhead, hc⟩
  | binary op l r ihl ihr =>
    obtain ⟨c, cs, hhead, hblank, _⟩ := display_head hl.2 hp.2.2
    have htext : (binary op l r).display.toList = ['('] ++ (l.display.toList ++
        (' ' :: op.symbol.toList ++ [' '] ++ (r.display.toList ++ [')']))) := by
      simp [display]
    rw [htext]
    exact (ihl hl.1 hp.2.1).binary op (ihr hl.2 hp.2.2) ⟨c, cs, hhead, hblank⟩

/-- What is shown of a tree that is read is the source of the regrouped tree. -/
theorem ofSource_display_regrouped {e : Expr} (hl : e.Legible) (hp : e.Plain) :
    ofSource e.display = .ok e.regrouped := by
  obtain ⟨ts, hspells, hscans⟩ := readsAs_display hl hp 0 [] (by simp [Delimits])
  have hscan := hscans [] (by rw [Token.scan, if_pos List.isEmpty_nil])
  rw [List.append_nil, List.append_nil] at hscan
  exact (ofSource_eq_ok_iff _ _ 0).2
    ⟨ts, hscan, hspells, wellGrouped_regrouped e, branched_regrouped hp⟩

/-- What is shown of a tree without ternaries is read as the same tree, up to groups. So trees that
are shown alike differ only in their groups, and have the same value in every model. -/
theorem ofSource_display {e : Expr} (hread : e.IsRead) (hplain : e.Plain) :
    (∃ e', ofSource e.display = .ok e' ∧ e'.ungrouped = e.ungrouped) ∧
      ∀ f : Expr, f.IsRead → f.Plain → f.display = e.display →
        f.ungrouped = e.ungrouped ∧ ∀ m data row, f.eval m data row = e.eval m data row := by
  have hsource := ofSource_display_regrouped hread.legible hplain
  refine ⟨⟨_, hsource, ungrouped_regrouped e⟩, fun f hf hfplain hsame => ?_⟩
  have hsource' := ofSource_display_regrouped hf.legible hfplain
  have hregroup : f.regrouped = e.regrouped := by
    rw [hsame, hsource] at hsource'
    exact (Except.ok.inj hsource').symm
  have hungroup : f.ungrouped = e.ungrouped := by
    rw [← ungrouped_regrouped f, hregroup, ungrouped_regrouped e]
  refine ⟨hungroup, fun m data row => ?_⟩
  rw [← eval_ungrouped hfplain, hungroup, eval_ungrouped hplain]

/-- Two trees with a text that has a quote, a tab and a brace in it, of which one is read from a
source and one from a template, are shown alike. -/
theorem ofSource_display_braces :
    let x : Float := Decimal.toFloat false 15 (-1)
    let e : Expr := .unary .not (.unary .group (.binary .add (.literal (.number x))
      (.binary .concat (.reference ⟨1, "x"⟩) (.literal (.text "a\"\t\x7b")))))
    let f : Expr := .unary .group e
    (e.IsRead ∧ e.Plain ∧ f.IsRead ∧ f.Plain ∧ f.display = e.display) ∧
      (∃ e', ofSource e.display = .ok e' ∧ e'.ungrouped = e.ungrouped) ∧
      f.ungrouped = e.ungrouped ∧ ∀ m data row, f.eval m data row = e.eval m data row := by
  intro x e f
  have hscan : Token.scan 0 "!(1.5 + $x .. \"a\\\"\\t\x7b\")".toList = .ok [⟨.negation, "!", 0⟩,
      ⟨.openParen, "(", 1⟩, ⟨.literal, "1.5", 2⟩, ⟨.space, " ", 5⟩, ⟨.additive, "+", 6⟩,
      ⟨.space, " ", 7⟩, ⟨.reference, "$x", 8⟩, ⟨.space, " ", 10⟩, ⟨.concat, "..", 11⟩,
      ⟨.space, " ", 13⟩, ⟨.literal, "\"a\\\"\t\x7b\"", 15⟩, ⟨.closeParen, ")", 22⟩] := by cbv
  have hsource : ofSource "!(1.5 + $x .. \"a\\\"\\t\x7b\")" = .ok e := by
    unfold ofSource
    rw [hscan]
    rfl
  have hread : e.IsRead := .inl ⟨_, hsource⟩
  have hread' : f.IsRead := .inr ⟨_, Template.ofTemplate_interpolated hsource⟩
  have hfinite : x.isFinite = true := by decide +kernel
  have hshowable : Text.Showable "a\"\t\x7b".toList := by
    refine ⟨fun c hc => ?_, by decide, by decide⟩
    have hmem : c ∈ ['a', '"', '\t', '\x7b'] := hc
    simp only [List.mem_cons, List.not_mem_nil, or_false] at hmem
    rcases hmem with rfl | rfl | rfl | rfl <;> decide
  have hplain : e.Plain :=
    ⟨⟨by decide, by decide⟩, hfinite, ⟨by decide, by decide⟩, trivial, hshowable⟩
  have hsame : f.display = e.display := rfl
  have h := ofSource_display hread hplain
  exact ⟨⟨hread, hplain, hread', hplain, hsame⟩, h.1, h.2 f hread' hplain hsame⟩

end Expr

end LiveScope
