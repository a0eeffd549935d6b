import LiveScope.Proofs.Expr.Grammar

/-!
# Trees nested by precedence

Facts about well grouped trees that need no parser. `Expr.branched_iff_paired` says that the shape
of the ternary nodes of a well grouped tree can be read off the operators of its groups, and
`Phrase.exists_wellGrouped` that every phrase is the spelling of a well grouped tree, which is built
by putting the operands, from the last to the first, at the left end of the tree of what follows.
-/

namespace LiveScope

namespace BinaryOp

/-- The ternary operators are those that bind least. -/
theorem isTernary_iff (op : BinaryOp) : op.isTernary = true ↔ op.precedence = 1 := by
  cases op <;> simp [isTernary, precedence]

/-- The ternary operators are those that group to the right. -/
theorem isRightAssoc_eq_isTernary (op : BinaryOp) : op.isRightAssoc = op.isTernary := by
  cases op <;> rfl

/-- Every operator binds at least as tightly as the ternary ones. -/
theorem one_le_precedence (op : BinaryOp) : 1 ≤ op.precedence := by
  cases op <;> simp [precedence]

/-- What being applied before another operator means. -/
theorem bindsBefore_iff (a b : BinaryOp) :
    a.bindsBefore b = true ↔
      b.precedence < a.precedence ∨ b.precedence = a.precedence ∧ a.isRightAssoc = false := by
  simp [bindsBefore]

/-- Being applied before is transitive. -/
theorem bindsBefore_trans {a b c : BinaryOp} (hab : a.bindsBefore b = true)
    (hbc : b.bindsBefore c = true) : a.bindsBefore c = true := by
  rw [bindsBefore_iff] at *
  rcases hab with h | ⟨h, ha⟩ <;> rcases hbc with h' | ⟨h', hb⟩
  · exact .inl (by omega)
  · exact .inl (by omega)
  · exact .inl (by omega)
  · exact .inr ⟨by omega, ha⟩

/-- What is not applied before another operator leaves that one to go first. -/
theorem bindsBefore_of_not {a b c : BinaryOp} (hac : a.bindsBefore c = true)
    (hab : ¬ a.bindsBefore b = true) : b.bindsBefore c = true := by
  rw [bindsBefore_iff] at *
  rw [not_or, not_and] at hab
  rcases hac with h | ⟨h, ha⟩
  · exact .inl (by omega)
  · have hne : b.precedence ≠ a.precedence := fun he => hab.2 he ha
    exact .inl (by omega)

/-- Without operators there is nothing to pair. -/
theorem paired_nil : Paired [] := by
  intro before after h
  simp at h

/-- Operators are paired if the first is followed by its `:`, should it be a `?`, and the others are
paired. -/
theorem paired_cons (op : BinaryOp) (ops : List BinaryOp) :
    Paired (op :: ops) ↔ (op = question → ops.find? isTernary = some colon) ∧ Paired ops := by
  constructor
  · intro h
    refine ⟨fun hop => h [] ops (by rw [hop]; rfl), fun before after he => ?_⟩
    exact h (op :: before) after (by rw [he]; rfl)
  · rintro ⟨hop, h⟩ before after he
    cases before with
    | nil =>
      obtain ⟨rfl, rfl⟩ := List.cons.inj he
      exact hop rfl
    | cons b before => exact h before after (List.cons.inj he).2

/-- Operators that are not ternary do not matter for the pairing of those after them. -/
theorem paired_append {xs : List BinaryOp} (hxs : ∀ x ∈ xs, x.isTernary = false)
    (ys : List BinaryOp) : Paired (xs ++ ys) ↔ Paired ys := by
  induction xs with
  | nil => rfl
  | cons x xs ih =>
    have hx : x ≠ question := by
      rintro rfl
      exact absurd (hxs question List.mem_cons_self) (by decide)
    rw [List.cons_append, paired_cons, ih fun y hy => hxs y (List.mem_cons_of_mem _ hy)]
    simp [hx]

end BinaryOp

namespace Token

/-- A literal token has a literal for its tree. -/
theorem ofLiteral_eq_literal {t : Token} {e : Expr} (h : Expr.ofLiteral t = .ok e) :
    ∃ v, e = .literal v := by
  unfold Expr.ofLiteral at h
  split at h
  · exact ⟨_, (Except.ok.inj h).symm⟩
  · exact ⟨_, (Except.ok.inj h).symm⟩
  · exact ⟨_, (Except.ok.inj h).symm⟩
  · split at h
    · exact ⟨_, (Except.ok.inj h).symm⟩
    · split at h
      · exact ⟨_, (Except.ok.inj h).symm⟩
      · cases h

/-- The tree of a leaf has no parts; a reference is read from a text. -/
theorem leaf?_cases {t : Token} {e : Expr} (h : t.leaf? = some e) :
    (∃ v, e = .literal v) ∨ (∃ s, e = .reference (.ofString s)) ∨ ∃ s, e = .property s := by
  unfold leaf? at h
  split at h
  · exact .inr (.inl ⟨_, (Option.some.inj h).symm⟩)
  · exact .inr (.inr ⟨_, (Option.some.inj h).symm⟩)
  · cases hlit : Expr.ofLiteral t with
    | ok e' =>
      rw [hlit] at h
      obtain rfl : e' = e := by simpa [Except.toOption] using h
      exact .inl (ofLiteral_eq_literal hlit)
    | error _ => simp [hlit, Except.toOption] at h
  · cases h

/-- An operator before an operand is no group. -/
theorem ne_group_of_unaryOp? {t : Token} {op : UnaryOp} (h : t.unaryOp? = some op) :
    op ≠ .group := by
  unfold unaryOp? at h
  split at h
  · simpa using (Option.filter_eq_some_iff.1 h).2
  · simpa using (Option.filter_eq_some_iff.1 h).2
  · cases h

end Token

namespace Expr

open BinaryOp

/-- A left operand fits if its operator is applied before. -/
theorem leftFits_iff (op : BinaryOp) (l : Expr) :
    LeftFits op l ↔ ∀ inner, l.root? = some inner → inner.bindsBefore op = true := by
  unfold LeftFits
  refine forall₂_congr fun inner _ => ?_
  rw [bindsBefore_iff, isRightAssoc_eq_isTernary, isRightAssoc_eq_isTernary]
  have hop := isTernary_iff op
  have hinner := isTernary_iff inner
  have := one_le_precedence op
  have := one_le_precedence inner
  cases h : op.isTernary <;> cases h' : inner.isTernary <;> simp_all <;> omega

/-- A right operand fits if the operator before it is not applied before its own. -/
theorem rightFits_iff (op : BinaryOp) (r : Expr) :
    RightFits op r ↔ ∀ inner, r.root? = some inner → ¬ op.bindsBefore inner = true := by
  unfold RightFits
  refine forall₂_congr fun inner _ => ?_
  rw [bindsBefore_iff]
  -- the two sides differ in how a tie in precedence is settled
  cases op.isRightAssoc with
  | true => simp
  | false =>
    simp
    omega

/-- Without an infix node at its root a tree has no operators outside of groups. -/
theorem operators_eq_nil {e : Expr} (h : e.root? = none) : e.operators = [] := by
  cases e with
  | binary => simp [root?] at h
  | literal | reference | property | unary => rfl

/-- All operators of a well grouped tree bind at least as tightly as the one at its root. -/
theorem precedence_le_of_mem_operators {e : Expr} (h : e.WellGrouped) {root : BinaryOp}
    (hroot : e.root? = some root) : ∀ op ∈ e.operators, root.precedence ≤ op.precedence := by
  induction e generalizing root with
  | literal | reference | property | unary => simp [root?] at hroot
  | binary op l r ihl ihr =>
    obtain ⟨hl, hr, hlf, hrf⟩ := h
    obtain rfl : op = root := by simpa [root?] using hroot
    intro x hx
    rcases List.mem_append.1 hx with hx | hx
    · cases hlr : l.root? with
      | none => simp [operators_eq_nil hlr] at hx
      | some inner =>
        have hinner := ihl hl hlr x hx
        have := hlf inner hlr
        split at this <;> omega
    · rcases List.mem_cons.1 hx with rfl | hx
      · exact Nat.le_refl _
      · cases hrr : r.root? with
        | none => simp [operators_eq_nil hrr] at hx
        | some inner =>
          have hinner := ihr hr hrr x hx
          have := hrf inner hrr
          split at this <;> omega

/-- A tree that binds more tightly than the ternary operators has none of them. -/
theorem isTernary_eq_false_of_mem_operators {e : Expr} (h : e.WellGrouped)
    (hroot : ∀ root, e.root? = some root → root.isTernary = false) :
    ∀ op ∈ e.operators, op.isTernary = false := by
  intro op hop
  cases hr : e.root? with
  | none => simp [operators_eq_nil hr] at hop
  | some root =>
    have hle := precedence_le_of_mem_operators h hr op hop
    have hnot := hroot root hr
    have hone := one_le_precedence root
    have htern := isTernary_iff op
    have hrtern := isTernary_iff root
    cases hb : op.isTernary
    · rfl
    · simp_all
      omega

/-- Whether the operators of every group inside the tree are paired. -/
def GroupsPaired : Expr → Prop
  | literal _ | reference _ | property _ => True
  | unary _ e => Paired e.operators ∧ e.GroupsPaired
  | binary _ l r => l.GroupsPaired ∧ r.GroupsPaired

/-- A left operand that fits has no ternary operator outside of its groups. -/
theorem isTernary_eq_false_of_leftFits {op : BinaryOp} {l : Expr} (hl : l.WellGrouped)
    (hfits : LeftFits op l) : ∀ x ∈ l.operators, x.isTernary = false := by
  refine isTernary_eq_false_of_mem_operators hl fun root hroot => ?_
  have hbefore := (leftFits_iff op l).1 hfits root hroot
  rw [bindsBefore_iff, isRightAssoc_eq_isTernary] at hbefore
  have hone := one_le_precedence op
  have htern := isTernary_iff root
  rcases hbefore with h | ⟨_, h⟩
  · cases hb : root.isTernary
    · rfl
    · have := htern.1 hb
      omega
  · exact h

/-- The first ternary operator of a well grouped tree is a `:` if the tree is a pair of branches. -/
theorem find?_operators_eq_colon_iff {e : Expr} (h : e.WellGrouped) :
    e.operators.find? isTernary = some .colon ↔ e.isBranches = true := by
  cases e with
  | literal | reference | property | unary => simp [operators, isBranches]
  | binary op l r =>
    obtain ⟨hl, hr, hlf, hrf⟩ := h
    have hnone : l.operators.find? isTernary = none := by
      rw [List.find?_eq_none]
      intro x hx
      simp [isTernary_eq_false_of_leftFits hl hlf x hx]
    rw [operators, List.find?_append, hnone, Option.none_or, List.find?_cons]
    -- A ternary operator at the root is the first, and without one there is none to its right.
    cases hop : op.isTernary with
    | true => cases op <;> simp [isTernary, isBranches] at hop ⊢
    | false =>
      have hright : ∀ x ∈ r.operators, x.isTernary = false := by
        refine isTernary_eq_false_of_mem_operators hr fun root hroot => ?_
        have hfit := hrf root hroot
        rw [isRightAssoc_eq_isTernary, hop] at hfit
        have hone := one_le_precedence op
        have htern := isTernary_iff root
        cases hb : root.isTernary
        · rfl
        · have := htern.1 hb
          simp only [Bool.false_eq_true, if_false] at hfit
          omega
      have hcolon : isBranches (binary op l r) = false := by
        cases op <;> simp [isTernary, isBranches] at hop ⊢
      have hnone' : r.operators.find? isTernary = none := by
        rw [List.find?_eq_none]
        intro x hx
        simp [hright x hx]
      simp [hnone', hcolon]

/-- Every `?` of a well grouped tree has its branches if the operators of the tree and of all groups
in it are paired. -/
theorem branched_iff_paired {e : Expr} (h : e.WellGrouped) :
    e.Branched ↔ Paired e.operators ∧ e.GroupsPaired := by
  induction e with
  | literal | reference | property => simp [Branched, GroupsPaired, operators, paired_nil]
  | unary op e ih => simp [Branched, GroupsPaired, operators, paired_nil, ih h.1]
  | binary op l r ihl ihr =>
    obtain ⟨hl, hr, hlf, hrf⟩ := h
    have hleft := isTernary_eq_false_of_leftFits hl hlf
    have hpaired : Paired l.operators := by
      have := (paired_append hleft []).2 paired_nil
      rwa [List.append_nil] at this
    rw [Branched, GroupsPaired, operators, paired_append hleft, paired_cons, ihl hl, ihr hr,
      find?_operators_eq_colon_iff hr]
    constructor
    · rintro ⟨⟨_, hgl⟩, ⟨hpr, hgr⟩, hq⟩
      exact ⟨⟨hq, hpr⟩, hgl, hgr⟩
    · rintro ⟨⟨hq, hpr⟩, hgl, hgr⟩
      exact ⟨⟨hpaired, hgl⟩, ⟨hpr, hgr⟩, hq⟩

/-- The tree of an operand, an operator and a sequence whose tree is `e`: the operand goes to the
left end of `e`, under all operators that are applied after the new one. -/
def prepend (operand : Expr) (op : BinaryOp) : Expr → Expr
  | binary first l r =>
    if op.bindsBefore first then binary first (prepend operand op l) r
    else binary op operand (binary first l r)
  | e => binary op operand e

/-- The root after putting an operand in front is its operator or the root from before. -/
theorem root?_prepend (operand : Expr) (op : BinaryOp) (e : Expr) :
    (prepend operand op e).root? = some op ∨ (prepend operand op e).root? = e.root? := by
  unfold prepend
  split
  · split
    · exact .inr rfl
    · exact .inl rfl
  · exact .inl rfl

/-- Putting an operand in front puts its operator in front. -/
theorem operators_prepend {operand : Expr} (h : operand.root? = none) (op : BinaryOp) (e : Expr) :
    (prepend operand op e).operators = op :: e.operators := by
  induction e with
  | literal | reference | property | unary => simp [prepend, operators, operators_eq_nil h]
  | binary first l r ihl =>
    rw [prepend]
    split
    · rw [operators, ihl, operators, List.cons_append]
    · rw [operators, operators_eq_nil h, List.nil_append]

/-- Putting an operand in front keeps the tree well grouped. -/
theorem wellGrouped_prepend {operand : Expr} (h : operand.root? = none)
    (hwell : operand.WellGrouped) (op : BinaryOp) {e : Expr} (he : e.WellGrouped) :
    (prepend operand op e).WellGrouped := by
  have hleft : LeftFits op operand := by
    intro inner hinner
    simp [h] at hinner
  induction e with
  | literal | reference | property => exact ⟨hwell, he, hleft, by simp [RightFits, root?]⟩
  | unary => exact ⟨hwell, he, hleft, by simp [RightFits, root?]⟩
  | binary first l r ihl =>
    rw [prepend]
    split
    · rename_i hbefore
      obtain ⟨hl, hr, hlf, hrf⟩ := he
      refine ⟨ihl hl, hr, ?_, hrf⟩
      rw [leftFits_iff] at hlf ⊢
      intro inner hinner
      rcases root?_prepend operand op l with hroot | hroot
      · rw [hroot] at hinner
        exact Option.some.inj hinner ▸ hbefore
      · exact hlf inner (hroot ▸ hinner)
    · rename_i hbefore
      refine ⟨hwell, he, hleft, (rightFits_iff _ _).2 fun inner hinner => ?_⟩
      simp only [root?, Option.some.injEq] at hinner
      rwa [hinner] at hbefore

/-- Putting an operand in front keeps the operators of groups paired. -/
theorem groupsPaired_prepend {operand : Expr} (h : operand.GroupsPaired) (op : BinaryOp)
    {e : Expr} (he : e.GroupsPaired) : (prepend operand op e).GroupsPaired := by
  induction e with
  | literal | reference | property | unary => exact ⟨h, he⟩
  | binary first l r ihl =>
    rw [prepend]
    split
    · exact ⟨ihl he.1, he.2⟩
    · exact ⟨h, he⟩

/-- Putting an operand in front puts its tokens in front. -/
theorem spells_prepend {operand e : Expr} {t : Token} {ts us : List Token} {op : BinaryOp}
    (h : Spells operand ts) (hop : t.binaryOp? = some op) (he : Spells e us) :
    Spells (prepend operand op e) (ts ++ t :: us) := by
  induction e generalizing us with
  | literal | reference | property | unary => exact .binary h hop he
  | binary first l r ihl =>
    rw [prepend]
    split
    · cases he with
      | leaf tree => rcases Token.leaf?_cases tree with ⟨_, h⟩ | ⟨_, h⟩ | ⟨_, h⟩ <;> cases h
      | binary hl hfirst hr =>
        have := Spells.binary (ihl hl) hfirst hr
        rwa [List.append_assoc, List.cons_append] at this
    · exact .binary h hop he

end Expr

/-- What a tree of a phrase of a form looks like from outside. -/
def Form.Describes : Form → Expr → Prop
  | operand, e => e.root? = none
  | sequence ops, e => e.operators = ops

namespace Phrase

/-- Every phrase is the spelling of a well grouped tree, which has the operators of the phrase. -/
theorem exists_wellGrouped {form : Form} {ts : List Token}
    (h : Phrase Token.Readable form ts) :
    ∃ e, Spells e ts ∧ e.WellGrouped ∧ e.GroupsPaired ∧ form.Describes e := by
  induction h with
  | @leaf t kind allowed =>
    have hleaf : ∃ e, t.leaf? = some e := by
      unfold Token.leaf?
      rcases kind with hk | hk | hk
      · exact ⟨_, by rw [hk]⟩
      · exact ⟨_, by rw [hk]⟩
      · obtain ⟨e, he⟩ := allowed hk
        exact ⟨e, by rw [hk]; simp [he, Except.toOption]⟩
    obtain ⟨e, he⟩ := hleaf
    refine ⟨e, .leaf he, ?_⟩
    rcases Token.leaf?_cases he with ⟨_, rfl⟩ | ⟨_, rfl⟩ | ⟨_, rfl⟩
    · exact ⟨trivial, trivial, rfl⟩
    · exact ⟨trivial, trivial, rfl⟩
    · exact ⟨trivial, trivial, rfl⟩
  | interpolation kind scan _ paired ih =>
    obtain ⟨e, hspell, hwell, hpaired, rfl⟩ := ih
    exact ⟨.unary .group e, .interpolation kind scan hspell, ⟨hwell, fun h => absurd rfl h⟩,
      ⟨paired, hpaired⟩, rfl⟩
  | group opens closes _ paired ih =>
    obtain ⟨e, hspell, hwell, hpaired, rfl⟩ := ih
    exact ⟨.unary .group e, .group opens closes hspell, ⟨hwell, fun h => absurd rfl h⟩,
      ⟨paired, hpaired⟩, rfl⟩
  | @unary t ts op op_eq _ ih =>
    obtain ⟨e, hspell, hwell, hpaired, hroot⟩ := ih
    refine ⟨.unary op e, .unary op_eq hspell, ⟨hwell, fun _ => hroot⟩, ⟨?_, hpaired⟩, rfl⟩
    rw [Expr.operators_eq_nil hroot]
    exact BinaryOp.paired_nil
  | single _ ih =>
    obtain ⟨e, hspell, hwell, hpaired, hroot⟩ := ih
    exact ⟨e, hspell, hwell, hpaired, Expr.operators_eq_nil hroot⟩
  | @binary t ts us op ops _ op_eq _ ih ihrest =>
    -- The operand goes down the left side of the tree of the rest, to where its operator belongs.
    obtain ⟨operand, hspell, hwell, hpaired, hroot⟩ := ih
    obtain ⟨e, hspells, hwells, hpaireds, hops⟩ := ihrest
    refine ⟨Expr.prepend operand op e, Expr.spells_prepend hspell op_eq hspells,
      Expr.wellGrouped_prepend hroot hwell op hwells,
      Expr.groupsPaired_prepend hpaired op hpaireds, ?_⟩
    show (Expr.prepend operand op e).operators = op :: ops
    rw [Expr.operators_prepend hroot, show e.operators = ops from hops]

/-- Two sequences with an operator between them are a sequence. -/
theorem append {literal : Token → Prop} {xs ys : List BinaryOp} {ts us : List Token} {t : Token}
    {op : BinaryOp} (h : Phrase literal (.sequence xs) ts) (hop : t.binaryOp? = some op)
    (h' : Phrase literal (.sequence ys) us) :
    Phrase literal (.sequence (xs ++ op :: ys)) (ts ++ t :: us) := by
  generalize hform : Form.sequence xs = form at h
  induction h generalizing xs with
  | single operand =>
    obtain rfl : xs = [] := Form.sequence.inj hform
    exact .binary operand hop h'
  | binary operand op_eq _ _ ih =>
    obtain rfl := Form.sequence.inj hform
    have := Phrase.binary operand op_eq (ih rfl)
    rwa [List.append_assoc, List.cons_append]
  | leaf | interpolation | group | unary => cases hform

/-- The spelling of a well grouped tree whose groups have their operators paired is a sequence with
the operators of the tree, and an operand if the tree is none of an infix operator. -/
theorem of_spells {e : Expr} {ts : List Token} (h : Spells e ts) (hwell : e.WellGrouped)
    (hpaired : e.GroupsPaired) :
    Phrase Token.Readable (.sequence e.operators) ts ∧
      (e.root? = none → Phrase Token.Readable .operand ts) := by
  have ofOperand {e : Expr} {ts : List Token} (hroot : e.root? = none)
      (h : Phrase Token.Readable .operand ts) :
      Phrase Token.Readable (.sequence e.operators) ts ∧
        (e.root? = none → Phrase Token.Readable .operand ts) := by
    rw [Expr.operators_eq_nil hroot]
    exact ⟨.single h, fun _ => h⟩
  induction h with
  | @leaf t e tree =>
    have hroot : e.root? = none := by
      rcases Token.leaf?_cases tree with ⟨_, rfl⟩ | ⟨_, rfl⟩ | ⟨_, rfl⟩ <;> rfl
    refine ofOperand hroot (.leaf ?_ fun hk => ?_)
    · unfold Token.leaf? at tree
      split at tree
      · exact .inl ‹_›
      · exact .inr (.inl ‹_›)
      · exact .inr (.inr ‹_›)
      · cases tree
    · unfold Token.leaf? at tree
      rw [hk] at tree
      cases hlit : Expr.ofLiteral t with
      | ok e' => exact ⟨e', hlit⟩
      | error _ => simp [hlit, Except.toOption] at tree
  | interpolation kind scan _ ih =>
    exact ofOperand rfl (.interpolation kind scan (ih hwell.1 hpaired.2).1 hpaired.1)
  | group opens closes _ ih =>
    exact ofOperand rfl (.group opens closes (ih hwell.1 hpaired.2).1 hpaired.1)
  | @unary t ts op e op_eq _ ih =>
    exact ofOperand rfl
      (.unary op_eq ((ih hwell.1 hpaired.2).2 (hwell.2 (Token.ne_group_of_unaryOp? op_eq))))
  | binary _ op_eq _ ihl ihr =>
    refine ⟨(ihl hwell.1 hpaired.1).1.append op_eq (ihr hwell.2.1 hpaired.2).1, fun hroot => ?_⟩
    cases hroot

end Phrase

end LiveScope
