import LiveScope.Expr.Eval
import LiveScope.Proofs.Expr.Offsets

/-!
# What a template means

A template is taken apart, its constant runs are put in quotes, and the tokens of all parts are
parsed and evaluated like those of any expression. `Template.ofTemplate_meaning` says that nothing
of this can be seen: a template is accepted if the source of each interpolation is an expression on
its own, its tree is the concatenation of the trees of its parts in one group, and its value is the
text of one part after the other, or the failure of the first that fails. A lone interpolation keeps
its value.

The parts do not get into each other's way because the tree of each is a leaf or a group, which
stands anywhere: this is all that the proof uses of them (`Part.isTree`).
-/

namespace LiveScope

namespace Template

/-! ## Parts and their trees -/

/-- The tree of a part. -/
def Part.tree : Part → Except Fault Expr
  | text cs => .ok (.literal (.text (String.ofList cs)))
  | reference src => .ok (.reference (.ofString (String.ofList src)))
  | interpolation src => do return .unary .group (← Expr.ofSource (String.ofList src))

/-- The trees of several parts as one: joined from left to right, in a group if there are several,
and the empty text if there are none. -/
def concatenation : List Expr → Expr
  | [] => .literal (.text "")
  | [e] => e
  | first :: second :: rest => .unary .group ((second :: rest).foldl (.binary .concat) first)

/-- The value of a part. -/
def Part.value (m : Model) (data row : Value) : Part → Except Fault Value
  | text cs => .ok (.text (String.ofList cs))
  | reference src => m.lookup data (.ofString (String.ofList src))
  | interpolation src => do (← Expr.ofSource (String.ofList src)).eval m data row

/-- The texts of parts, one after the other, or the failure of the first part that fails. -/
def texts (m : Model) (data row : Value) : List Part → Except Fault String
  | [] => .ok ""
  | part :: rest => do
    let v ← part.value m data row
    return m.text v ++ (← texts m data row rest)

/-- The value of a template with the given parts. -/
def meaning (m : Model) (data row : Value) : List Part → Except Fault Value
  | [.interpolation src] => Part.value m data row (.interpolation src)
  | parts => do return .text (← texts m data row parts)

/-- A constant in quotes is read as that constant. -/
theorem unquote_quote (cs : List Char) :
    Expr.unquote (quote cs).toList = String.ofList cs := by
  -- Each character comes back, with the backslash that was put before it.
  have hunescape : ∀ cs : List Char, Expr.unquote.unescape
      (cs.flatMap fun c => if c = '"' ∨ c = '\\' then ['\\', c] else [c]) = cs := by
    intro cs
    induction cs with
    | nil => rfl
    | cons c cs ih =>
      rw [List.flatMap_cons]
      by_cases hc : c = '"' ∨ c = '\\'
      · rw [if_pos hc]
        show unescape c :: Expr.unquote.unescape (List.flatMap _ cs) = _
        rw [ih]
        rcases hc with rfl | rfl <;> rfl
      · rw [if_neg hc, List.singleton_append, Expr.unquote.unescape, ih]
        · exact fun h _ => hc (.inr h)
        · exact fun _ _ h _ => hc (.inr h)
  have hquote : (quote cs).toList =
      '"' :: (cs.flatMap fun c => if c = '"' ∨ c = '\\' then ['\\', c] else [c]) ++ ['"'] := by
    unfold quote
    rw [String.toList_ofList]
  rw [hquote]
  unfold Expr.unquote
  simp only [List.cons_append, List.drop_succ_cons, List.drop_zero, List.getLast?_append,
    List.dropLast_concat, List.getLast?_singleton, Option.some_or]
  rw [if_pos (by decide), hunescape]

/-- The token of a constant run is read as the run. -/
theorem ofLiteral_quote (cs : List Char) (offset : Nat) :
    Expr.ofLiteral ⟨.literal, quote cs, offset⟩ = .ok (.literal (.text (String.ofList cs))) := by
  have hhead : (quote cs).toList.head? = some '"' := by
    unfold quote
    rw [String.toList_ofList]
    rfl
  have hne (word : String) (h : word.toList.head? ≠ some '"') : quote cs ≠ word := by
    rintro rfl
    exact h hhead
  unfold Expr.ofLiteral
  split
  · rename_i h
    exact absurd h (hne _ (by decide))
  · rename_i h
    exact absurd h (hne _ (by decide))
  · rename_i h
    exact absurd h (hne _ (by decide))
  · rw [hhead, unquote_quote]
    rfl

open LiveScope.Parser in
/-- The token of a part is read as its tree, which is a leaf or a group. -/
theorem Part.isTree {p : Nat × Part} {e : Expr} (h : p.2.tree = .ok e) :
    IsTree e [Part.token p] ∧ e.root? = none := by
  obtain ⟨offset, part⟩ := p
  cases part with
  | text cs =>
    obtain rfl := Except.ok.inj h
    refine ⟨⟨.leaf ?_, trivial, trivial⟩, rfl⟩
    show (Expr.ofLiteral ⟨.literal, quote cs, offset⟩).toOption = _
    rw [ofLiteral_quote]
    rfl
  | reference src =>
    obtain rfl := Except.ok.inj h
    exact ⟨⟨.leaf rfl, trivial, trivial⟩, rfl⟩
  | interpolation src =>
    obtain ⟨e, he, rfl⟩ := bind_pure_eq_ok_iff.1 h
    obtain ⟨ts, hscan, htree⟩ := (Expr.ofSource_eq_ok_iff _ e offset).1 he
    exact ⟨⟨.interpolation rfl hscan htree.spells, ⟨htree.wellGrouped, fun h => absurd rfl h⟩,
      htree.branched⟩, rfl⟩

/-! ## The tree of a template -/

open LiveScope.Parser in
/-- Leaves and groups with `..` between them are read as their concatenation from left to right. -/
theorem isTree_foldl {acc : Expr} {us : List Token} {ts : List Token} {es : List Expr}
    (hacc : IsTree acc us) (hroot : ∀ op, acc.root? = some op → op = .concat)
    (h : List.Forall₂ (fun t e => IsTree e [t] ∧ e.root? = none) ts es) :
    IsTree (es.foldl (.binary .concat) acc)
      (us ++ ts.flatMap fun t => [⟨.concat, "..", t.offset⟩, t]) := by
  induction h generalizing acc us with
  | nil => rwa [List.flatMap_nil, List.append_nil]
  | @cons t e ts es he _ ih =>
    obtain ⟨htree, hleaf⟩ := he
    rw [List.foldl_cons, List.flatMap_cons, ← List.append_assoc]
    refine ih ⟨.binary hacc.spells rfl htree.spells, ⟨hacc.wellGrouped, htree.wellGrouped, ?_, ?_⟩,
      hacc.branched, htree.branched, fun h => by cases h⟩ fun op hop => (Option.some.inj hop).symm
    · intro inner hinner
      rw [hroot inner hinner]
      exact Nat.le_refl _
    · intro inner hinner
      rw [hleaf] at hinner
      cases hinner

open LiveScope.Parser in
/-- The joined tokens of parts are read as the concatenation of their trees. -/
theorem isTree_joined {ts : List Token} {es : List Expr}
    (h : List.Forall₂ (fun t e => IsTree e [t] ∧ e.root? = none) ts es) (start stop : Nat) :
    IsTree (concatenation es) (joined start stop ts) := by
  match h with
  | .nil => exact (Part.isTree (p := (start, .text [])) rfl).1
  | .cons he .nil => exact he.1
  | .cons (b := first) ⟨hfirst, hroot⟩ (.cons hsecond hrest) =>
    have hfold := isTree_foldl hfirst (fun op hop => by rw [hroot] at hop; cases hop)
      (.cons hsecond hrest)
    exact ⟨.group rfl rfl hfold.spells, ⟨hfold.wellGrouped, fun h => absurd rfl h⟩, hfold.branched⟩

/-- No part is a blank. -/
theorem visible_joined {ts : List Token} (h : ∀ t ∈ ts, t.kind ≠ .space) (start stop : Nat) :
    Token.visible (joined start stop ts) = joined start stop ts := by
  refine List.filter_eq_self.2 fun u hu => bne_iff_ne.2 ?_
  have own {kind : TokenKind} {src : String} {offset : Nat} (hk : kind ≠ .space) :
      (Token.mk kind src offset).kind ≠ .space := hk
  match ts with
  | [] =>
    obtain rfl := List.mem_singleton.1 hu
    exact own (by decide)
  | [t] => exact h u hu
  | first :: second :: rest =>
    simp only [joined, List.cons_append, List.mem_cons, List.mem_append, List.mem_flatMap,
      List.not_mem_nil, or_false] at hu
    rcases hu with rfl | rfl | ⟨t, ht, rfl | rfl⟩ | rfl
    · exact own (by decide)
    · exact h _ List.mem_cons_self
    · exact own (by decide)
    · exact h _ (List.mem_cons_of_mem _ (List.mem_cons.2 ht))
    · exact own (by decide)

/-- A token of a part is among the joined tokens. -/
theorem mem_joined {ts : List Token} {t : Token} (h : t ∈ ts) (start stop : Nat) :
    t ∈ joined start stop ts := by
  match ts with
  | [u] => exact h
  | first :: second :: rest =>
    rw [joined, List.cons_append]
    refine List.mem_cons_of_mem _ (List.mem_append_left _ ?_)
    rcases List.mem_cons.1 h with rfl | h
    · exact List.mem_cons_self
    · exact List.mem_cons_of_mem _ (List.mem_flatMap.2 ⟨t, h, List.mem_cons_of_mem _
        List.mem_cons_self⟩)

end Template

open LiveScope.Parser in
/-- The source of an interpolation in a tree is an expression. -/
theorem Spells.exists_ofSource {e : Expr} {ts : List Token} (h : Spells e ts)
    (hgrouped : e.WellGrouped) (hbranched : e.Branched) {t : Token} (ht : t ∈ ts)
    (hk : t.kind = .interpolation) : ∃ e', Expr.ofSource t.src = .ok e' := by
  induction h with
  | leaf tree =>
    obtain rfl := List.mem_singleton.1 ht
    unfold Token.leaf? at tree
    rw [hk] at tree
    cases tree
  | @interpolation u us e kind scan body _ =>
    obtain rfl := List.mem_singleton.1 ht
    exact ⟨e, (Expr.ofSource_eq_ok_iff _ e t.offset).2 ⟨us, scan, body, hgrouped.1, hbranched⟩⟩
  | group opens closes body ih =>
    rw [List.cons_append, List.mem_cons, List.mem_append, List.mem_singleton] at ht
    rcases ht with rfl | ht | rfl
    · cases hk.symm.trans opens
    · exact ih hgrouped.1 hbranched ht
    · cases hk.symm.trans closes
  | unary op_eq operand ih =>
    rcases List.mem_cons.1 ht with rfl | ht
    · unfold Token.unaryOp? at op_eq
      rw [hk] at op_eq
      cases op_eq
    · exact ih hgrouped.1 hbranched ht
  | binary left op_eq right ihl ihr =>
    rcases List.mem_append.1 ht with ht | ht
    · exact ihl hgrouped.1 hbranched.1 ht
    · rcases List.mem_cons.1 ht with rfl | ht
      · unfold Token.binaryOp? at op_eq
        rw [hk] at op_eq
        cases op_eq
      · exact ihr hgrouped.2.1 hbranched.2.1 ht

namespace Template

/-- The parts of a template have trees if the sources of its interpolations are expressions. -/
theorem exists_trees {ps : List (Nat × Part)}
    (h : ∀ p ∈ ps, ∀ body, p.2 = .interpolation body →
      ∃ e, Expr.ofSource (String.ofList body) = .ok e) :
    ∃ es, List.Forall₂ (fun p e => p.2.tree = .ok e) ps es := by
  induction ps with
  | nil => exact ⟨[], .nil⟩
  | cons p ps ih =>
    obtain ⟨es, hes⟩ := ih fun q hq => h q (List.mem_cons_of_mem p hq)
    have hp : ∃ e, p.2.tree = .ok e := by
      cases hpart : p.2 with
      | text cs | reference src => exact ⟨_, rfl⟩
      | interpolation body =>
        obtain ⟨e, he⟩ := h p List.mem_cons_self body hpart
        exact ⟨_, bind_eq_ok_iff.2 ⟨e, he, rfl⟩⟩
    obtain ⟨e, he⟩ := hp
    exact ⟨e :: es, .cons he hes⟩

/-- What is put before a lone reference is no interpolation. -/
theorem interpolation_mem_padded {ps : List (Nat × Part)} {p : Nat × Part} {body : List Char}
    (hp : p.2 = .interpolation body) : p ∈ padded ps ↔ p ∈ ps := by
  unfold padded
  split
  · have hne (q : Nat × Part) (hq : q.2 ≠ .interpolation body) : p ≠ q := by
      rintro rfl
      exact hq hp
    simp only [List.mem_cons, List.not_mem_nil, or_false]
    exact iff_of_false (fun h => h.elim (hne _ (by simp)) (hne _ (by simp))) (hne _ (by simp))
  · exact Iff.rfl

/-- A template is parsed as the concatenation of the trees of its parts. -/
theorem ofTemplate_eq_ok {src : String} {ps : List (Nat × Part)}
    (h : parts 0 src.toList = .ok ps) {es : List Expr}
    (hes : List.Forall₂ (fun p e => p.2.tree = .ok e) (padded ps) es) :
    Expr.ofTemplate src = .ok (concatenation es) := by
  have htokens : List.Forall₂ (fun t e => Parser.IsTree e [t] ∧ e.root? = none)
      ((padded ps).map Part.token) es :=
    List.forall₂_map_left_iff.2 (hes.imp fun _ _ he => Part.isTree he)
  have htree := isTree_joined htokens 0 (0 + Lexeme.bytes src.toList)
  rw [← visible_joined] at htree
  · unfold Expr.ofTemplate
    rw [tokens_eq, h]
    exact (Expr.parse_gives htree.spells htree.wellGrouped).resolve_right
      fun h => h.1 htree.branched
  · intro t ht
    obtain ⟨⟨_, part⟩, _, rfl⟩ := List.mem_map.1 ht
    cases part <;> simp [Part.token]

/-- A template whose parts are known is parsed if the sources of its interpolations are, and then
they have trees. -/
theorem exists_trees_of_ofTemplate {src : String} {ps : List (Nat × Part)}
    (h : parts 0 src.toList = .ok ps) {e : Expr} (he : Expr.ofTemplate src = .ok e) :
    ∃ es, List.Forall₂ (fun p e => p.2.tree = .ok e) (padded ps) es := by
  unfold Expr.ofTemplate at he
  obtain ⟨ts, hts, hparse⟩ := bind_eq_ok_iff.1 he
  have htree := Parser.run_isTree (fun t ht => (Lexeme.mem_templateTokens hts ht).1) hparse
  rw [tokens_eq, h] at hts
  obtain rfl := Except.ok.inj hts
  refine exists_trees fun p hp body hbody => ?_
  have hmem : Part.token p ∈ Token.visible (joined 0 (0 + Lexeme.bytes src.toList)
      ((padded ps).map Part.token)) := by
    refine List.mem_filter.2 ⟨mem_joined (List.mem_map_of_mem hp) _ _, ?_⟩
    obtain ⟨_, part⟩ := p
    obtain rfl : part = .interpolation body := hbody
    rfl
  obtain ⟨_, part⟩ := p
  obtain rfl : part = .interpolation body := hbody
  exact htree.spells.exists_ofSource htree.wellGrouped htree.branched hmem rfl

/-! ## The value of a template -/

variable {m : Model} {data row : Value}

/-- The value of a part is that of its tree. -/
theorem Part.eval_tree {p : Part} {e : Expr} (h : p.tree = .ok e) :
    e.eval m data row = p.value m data row := by
  cases p with
  | text cs | reference src =>
    obtain rfl := Except.ok.inj h
    rfl
  | interpolation src =>
    obtain ⟨e, he, rfl⟩ := bind_pure_eq_ok_iff.1 h
    rw [Expr.eval, Part.value, he]
    show (do return UnaryOp.group.apply (← e.eval m data row)) = e.eval m data row
    cases e.eval m data row <;> rfl

/-- The value of a concatenation from left to right, if that of its beginning is the text `x`. -/
theorem eval_foldl {ps : List (Nat × Part)} {es : List Expr}
    (h : List.Forall₂ (fun p e => p.2.tree = .ok e) ps es) {acc : Expr} {x : Except Fault String}
    (hacc : acc.eval m data row = do return .text (← x)) :
    (es.foldl (.binary .concat) acc).eval m data row =
      do return .text ((← x) ++ (← texts m data row (ps.map Prod.snd))) := by
  induction h generalizing acc x with
  | nil =>
    rw [List.foldl_nil, hacc]
    cases x with
    | error => rfl
    | ok s =>
      show Except.ok (Value.text s) = .ok (.text (s ++ ""))
      rw [String.append_empty]
  | @cons p e ps es he _ ih =>
    rw [List.foldl_cons, ih (x := do return (← x) ++ m.text (← p.2.value m data row))]
    · rw [List.map_cons, texts]
      cases x with
      | error => rfl
      | ok s =>
        cases p.2.value m data row with
        | error => rfl
        | ok v =>
          cases texts m data row (ps.map Prod.snd) with
          | error => rfl
          | ok t => exact congrArg (fun s => Except.ok (Value.text s)) (String.append_assoc ..)
    · rw [Expr.eval, hacc, Part.eval_tree he]
      · cases x with
        | error => rfl
        | ok s => cases p.2.value m data row <;> rfl
      all_goals simp

/-- The value of a concatenation is the meaning of its parts, unless it is a lone reference. -/
theorem eval_concatenation {ps : List (Nat × Part)} {es : List Expr}
    (h : List.Forall₂ (fun p e => p.2.tree = .ok e) ps es)
    (hlone : ∀ src, ps.map Prod.snd ≠ [.reference src]) :
    (concatenation es).eval m data row = meaning m data row (ps.map Prod.snd) := by
  match h with
  | .nil => rfl
  | .cons (a := (_, .text cs)) he .nil =>
    show Expr.eval m data row _ = .ok (.text (String.ofList cs ++ ""))
    rw [concatenation, Part.eval_tree he, String.append_empty]
    rfl
  | .cons (a := (_, .reference src)) he .nil => exact absurd rfl (hlone src)
  | .cons (a := (_, .interpolation src)) he .nil => exact Part.eval_tree he
  | .cons (a := p) (b := first) hfirst (@List.Forall₂.cons _ _ _ q second ps _ hsecond hrest) =>
    -- With two parts or more the first two make the text that the others are appended to.
    let start : Except Fault String := do
      return m.text (← p.2.value m data row) ++ m.text (← q.2.value m data row)
    have hstart : (Expr.binary .concat first second).eval m data row =
        do return .text (← start) := by
      dsimp only [start]
      rw [Expr.eval, Part.eval_tree hfirst, Part.eval_tree hsecond]
      · cases p.2.value m data row with
        | error => rfl
        | ok v => cases q.2.value m data row <;> rfl
      all_goals simp
    have hmeaning : meaning m data row ((p :: q :: ps).map Prod.snd) =
        do return .text (← texts m data row ((p :: q :: ps).map Prod.snd)) := by
      rw [meaning]
      simp
    rw [hmeaning, concatenation, Expr.eval, List.foldl_cons, eval_foldl hrest hstart, List.map_cons,
      List.map_cons, texts, texts]
    dsimp only [start]
    cases p.2.value m data row with
    | error => rfl
    | ok v =>
      cases q.2.value m data row with
      | error => rfl
      | ok u =>
        cases texts m data row (ps.map Prod.snd) with
        | error => rfl
        | ok t => exact congrArg (fun s => Except.ok (Value.text s)) (String.append_assoc ..)

/-- An empty text before a lone reference changes nothing about the meaning. -/
theorem meaning_padded (ps : List (Nat × Part)) :
    meaning m data row ((padded ps).map Prod.snd) = meaning m data row (ps.map Prod.snd) := by
  rw [map_snd_padded]
  split
  · rename_i src heq
    rw [heq, meaning, meaning, texts]
    · show (do return Value.text (← (do return "" ++ (← texts m data row [.reference src])))) = _
      simp only [String.empty_append, bind_pure]
    all_goals simp
  · rfl

/-- A template that can be taken apart is accepted if and only if the source of every interpolation
is an expression on its own. Its tree is the concatenation of the trees of its parts, and its value
their texts one after the other. -/
theorem ofTemplate_meaning (src : String) (ps : List (Nat × Part))
    (h : parts 0 src.toList = .ok ps) :
    ((∃ e, Expr.ofTemplate src = .ok e) ↔
      ∀ p ∈ ps, ∀ body, p.2 = .interpolation body →
        ∃ e, Expr.ofSource (String.ofList body) = .ok e) ∧
    ∀ e, Expr.ofTemplate src = .ok e →
      (∃ es, List.Forall₂ (fun p e => p.2.tree = .ok e) (padded ps) es ∧ e = concatenation es) ∧
      ∀ m data row, e.eval m data row = meaning m data row (ps.map Prod.snd) := by
  refine ⟨⟨?_, fun hbodies => ?_⟩, fun e he => ?_⟩
  · -- A part is one of those that are joined, and each of these has a tree.
    rintro ⟨e, he⟩ p hp body hbody
    obtain ⟨es, hes⟩ := exists_trees_of_ofTemplate h he
    obtain ⟨i, hi, rfl⟩ := List.mem_iff_getElem.1 ((interpolation_mem_padded hbody).2 hp)
    have he' := hes.get hi (hes.length_eq ▸ hi)
    rw [List.get_eq_getElem, hbody] at he'
    obtain ⟨e'', he'', _⟩ := bind_eq_ok_iff.1 he'
    exact ⟨e'', he''⟩
  · obtain ⟨es, hes⟩ := exists_trees fun p hp body hbody =>
      hbodies p ((interpolation_mem_padded hbody).1 hp) body hbody
    exact ⟨_, ofTemplate_eq_ok h hes⟩
  · obtain ⟨es, hes⟩ := exists_trees_of_ofTemplate h he
    obtain rfl := Except.ok.inj (he.symm.trans (ofTemplate_eq_ok h hes))
    refine ⟨⟨es, hes, rfl⟩, fun m data row => ?_⟩
    rw [eval_concatenation hes, meaning_padded]
    intro lone hlone
    rw [map_snd_padded] at hlone
    split at hlone
    · cases hlone
    · rename_i hne
      exact hne lone hlone

/-- A sign with a word on it. -/
def sign : Model :=
  { objects := #[⟨.map (Dict.ofList [("lit", .bool true), ("word", .text "Exit")]), none⟩] }

/-- Braces in a quoted text, a ternary and a reference stand side by side. -/
theorem ofTemplate_meaning_sign :
    parts 0 "$word: \x7b\x7blit?'\x7d\x7d':word\x7d\x7d!".toList = .ok
      [(0, .reference ['$', 'w', 'o', 'r', 'd']), (5, .text [':', ' ']),
        (9, .interpolation ['l', 'i', 't', '?', '\'', '}', '}', '\'', ':', 'w', 'o', 'r', 'd']),
        (24, .text ['!'])] ∧
    ∃ e, Expr.ofTemplate "$word: \x7b\x7blit?'\x7d\x7d':word\x7d\x7d!" = .ok e ∧
      e.eval sign (.object 0) .null = .ok (.text "Exit: \x7d\x7d!") := by
  have hparts : parts 0 "$word: \x7b\x7blit?'\x7d\x7d':word\x7d\x7d!".toList = .ok
      [(0, .reference ['$', 'w', 'o', 'r', 'd']), (5, .text [':', ' ']),
        (9, .interpolation ['l', 'i', 't', '?', '\'', '}', '}', '\'', ':', 'w', 'o', 'r', 'd']),
        (24, .text ['!'])] := by
    with_unfolding_all rfl
  have hbody : Expr.ofSource "lit?'\x7d\x7d':word" = .ok (.binary .question (.reference ⟨0, "lit"⟩)
      (.binary .colon (.literal (.text "\x7d\x7d")) (.reference ⟨0, "word"⟩))) := by
    with_unfolding_all rfl
  obtain ⟨haccepts, hvalue⟩ := ofTemplate_meaning _ _ hparts
  obtain ⟨e, he⟩ := haccepts.2 fun p hp body h => by
    simp only [List.mem_cons, List.not_mem_nil, or_false] at hp
    rcases hp with rfl | rfl | rfl | rfl
    · cases h
    · cases h
    · obtain rfl := Part.interpolation.inj h
      exact ⟨_, hbody⟩
    · cases h
  refine ⟨hparts, e, he, ((hvalue e he).2 sign (.object 0) .null).trans ?_⟩
  have hlit : Part.value sign (.object 0) .null (.interpolation
      ['l', 'i', 't', '?', '\'', '}', '}', '\'', ':', 'w', 'o', 'r', 'd']) =
        .ok (.text "\x7d\x7d") := by
    show (do (← Expr.ofSource "lit?'\x7d\x7d':word").eval sign (.object 0) .null) = _
    rw [hbody]
    rfl
  simp only [List.map_cons, List.map_nil, meaning, texts, hlit]
  rfl

end Template

end LiveScope
