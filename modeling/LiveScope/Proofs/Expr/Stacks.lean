import LiveScope.Proofs.Expr.Nesting
import LiveScope.Proofs.Expr.Precedence
import Mathlib.Data.List.TakeWhile

/-!
# What the parser's stacks hold

The soundness of `Parser.run`. `Parser.Stacked` says which tokens the waiting operators and the
operands below the top spell out, and `Parser.State.Reads` adds the operand on top. Every step keeps
the relation (`State.step_reads`): an operator is put on its stack only above one that is applied
later, so that whatever is applied yields a well grouped tree.
-/

namespace LiveScope

namespace Parser

open State

/-- A tree that a list of tokens may be read as. -/
structure IsTree (e : Expr) (ts : List Token) : Prop where
  /-- The tokens spell the tree. -/
  spells : Spells e ts
  /-- It is nested by precedence. -/
  wellGrouped : e.WellGrouped
  /-- Every `?` in it has its branches. -/
  branched : e.Branched

/-- Whether the operator at the root of an operand leaves it where it stands, right after the
operators that wait: the last of them is not applied before the root. -/
def Under (pending : List Pending) (e : Expr) : Prop :=
  ∀ p ∈ pending.head?, ∀ root, e.root? = some root → ¬ p.appliesBefore root = true

/-- The tokens that waiting operators and the left operands of the infix ones among them spell
out. -/
inductive Stacked : List Pending → List Expr → List Token → Prop
  | nil : Stacked [] [] []
  | opened {t : Token} {ps : List Pending} {es : List Expr} {ts : List Token}
      (kind : t.kind = .openParen) (below : Stacked ps es ts) :
      Stacked (.opened t :: ps) es (ts ++ [t])
  | unary {t : Token} {op : UnaryOp} {ps : List Pending} {es : List Expr} {ts : List Token}
      (op_eq : t.unaryOp? = some op) (below : Stacked ps es ts) :
      Stacked (.unary op t :: ps) es (ts ++ [t])
  | binary {t : Token} {op : BinaryOp} {l : Expr} {ps : List Pending} {es : List Expr}
      {ts us : List Token} (op_eq : t.binaryOp? = some op) (left : IsTree l us)
      (fits : Expr.LeftFits op l) (waits : ∀ p ∈ ps.head?, ¬ p.appliesBefore op = true)
      (below : Stacked ps es ts) :
      Stacked (.binary op t :: ps) (l :: es) (ts ++ us ++ [t])

/-- The tokens that a state has read. -/
inductive State.Reads : State → List Token → Prop
  | waiting {ps : List Pending} {es : List Expr} {ts : List Token} (below : Stacked ps es ts) :
      Reads ⟨es, ps, true⟩ ts
  | complete {ps : List Pending} {es : List Expr} {e : Expr} {ts us : List Token}
      (below : Stacked ps es ts) (top : IsTree e us) (whole : e.root? = none) :
      Reads ⟨e :: es, ps, false⟩ (ts ++ us)

/-- The next level of interpolations. -/
def inner (levels : Nat) (t : Token) : Except Fault Expr := do
  run levels t.offset (← Token.scan t.offset t.src.toList)

/-- A level reads its tokens one after the other, with the next level for interpolations. -/
theorem run_succ (levels offset : Nat) (ts : List Token) :
    run (levels + 1) offset ts =
      ts.foldlM (State.step (inner levels)) {} >>= fun s => s.finish offset :=
  rfl

/-- An operand that is no infix node stands anywhere. -/
theorem under_of_root? {e : Expr} (h : e.root? = none) (pending : List Pending) :
    Under pending e := by
  intro p _ root hroot
  rw [h] at hroot
  cases hroot

/-- Applying the operator on top of a stack to the operand on top of the other yields a tree of the
tokens of both. -/
theorem apply_isTree {p : Pending} {ps : List Pending} {es : List Expr} {e : Expr}
    {ts us : List Token} (hs : Stacked (p :: ps) es ts) (he : IsTree e us)
    (hu : Under (p :: ps) e) {es' : List Expr} (h : apply (e :: es) p = .ok es') :
    ∃ e' es'' ts' us', es' = e' :: es'' ∧ Stacked ps es'' ts' ∧ IsTree e' us' ∧ Under ps e' ∧
      ts' ++ us' = ts ++ us ∧ ∀ root, e'.root? = some root → ∃ t, p = .binary root t := by
  cases hs with
  | opened => cases h
  | @unary t op _ _ ts op_eq below =>
    -- A sign is applied before any infix operator that follows, so its operand is not made by one.
    obtain rfl := Except.ok.inj h
    have hroot : e.root? = none := by
      cases hr : e.root? with
      | none => rfl
      | some root => exact absurd rfl (hu _ rfl root hr)
    refine ⟨.unary op e, es, ts, t :: us, rfl, below, ?_, under_of_root? rfl ps, ?_, ?_⟩
    · exact ⟨.unary op_eq he.spells, ⟨he.wellGrouped, fun _ => hroot⟩, he.branched⟩
    · rw [List.append_assoc, List.singleton_append]
    · intro root hr
      cases hr
  | @binary t op l _ es ts vs op_eq left fits waits below =>
    have hr : Expr.RightFits op e := (Expr.rightFits_iff op e).2 fun inner hroot =>
      hu _ rfl inner hroot
    unfold apply at h
    simp only [pop, bind, Except.bind] at h
    split at h
    · cases h
    · rename_i hbranch
      obtain rfl := Except.ok.inj h
      refine ⟨.binary op l e, es, ts, vs ++ t :: us, rfl, below, ?_, ?_, ?_, ?_⟩
      · refine ⟨.binary left.spells op_eq he.spells, ⟨left.wellGrouped, he.wellGrouped, fits, hr⟩,
          left.branched, he.branched, fun hop => ?_⟩
        rw [hop] at hbranch
        simpa using hbranch
      · rintro p hp root hroot
        obtain rfl : op = root := by simpa [Expr.root?] using hroot
        exact waits p hp
      · simp only [List.append_assoc, List.singleton_append]
      · intro root hroot
        obtain rfl : op = root := by simpa [Expr.root?] using hroot
        exact ⟨t, rfl⟩

/-- What is left of the waiting operators are those from the first that the condition does not hold
of. -/
theorem applyWhile_pending {condition : Pending → Bool} {es es' : List Expr}
    {ps ps' : List Pending} (h : applyWhile condition es ps = .ok (es', ps')) :
    ps' = ps.dropWhile condition := by
  induction ps generalizing es with
  | nil =>
    obtain ⟨_, rfl⟩ := Prod.mk.inj (Except.ok.inj h)
    rfl
  | cons p ps ih =>
    rw [applyWhile] at h
    split at h
    · rename_i hp
      obtain ⟨es'', _, h⟩ := bind_eq_ok_iff.1 h
      rw [List.dropWhile_cons_of_pos hp]
      exact ih h
    · rename_i hp
      obtain ⟨_, rfl⟩ := Prod.mk.inj (Except.ok.inj h)
      rw [List.dropWhile_cons_of_neg hp]

/-- Applying waiting operators from the top leaves a tree of the same tokens on top of those that
still wait. -/
theorem applyWhile_isTree {condition : Pending → Bool} {ps : List Pending} {es : List Expr}
    {e : Expr} {ts us : List Token} (hs : Stacked ps es ts) (he : IsTree e us) (hu : Under ps e)
    (hroot : ∀ root, e.root? = some root → ∃ t, condition (.binary root t) = true)
    {es' : List Expr} {ps' : List Pending}
    (h : applyWhile condition (e :: es) ps = .ok (es', ps')) :
    ∃ e' es'' ts' us', es' = e' :: es'' ∧ Stacked ps' es'' ts' ∧ IsTree e' us' ∧
      ts' ++ us' = ts ++ us ∧
      ∀ root, e'.root? = some root → ∃ t, condition (.binary root t) = true := by
  induction ps generalizing e es ts us with
  | nil =>
    obtain ⟨rfl, rfl⟩ := Prod.mk.inj (Except.ok.inj h)
    exact ⟨e, es, ts, us, rfl, hs, he, rfl, hroot⟩
  | cons p ps ih =>
    rw [applyWhile] at h
    split at h
    · rename_i hp
      obtain ⟨_, happly, h⟩ := bind_eq_ok_iff.1 h
      obtain ⟨e', es'', ts', us', rfl, hs', he', hu', heq, hr⟩ := apply_isTree hs he hu happly
      rw [← heq]
      refine ih hs' he' hu' (fun root hroot' => ?_) h
      obtain ⟨t, rfl⟩ := hr root hroot'
      exact ⟨t, hp⟩
    · obtain ⟨rfl, rfl⟩ := Prod.mk.inj (Except.ok.inj h)
      exact ⟨e, es, ts, us, rfl, hs, he, rfl, hroot⟩

/-- A prefix operator that is read is the one of its token. -/
theorem unaryOp?_of_unaryOp {t : Token} {op : UnaryOp} (hwell : t.WellSpelled)
    (hk : t.kind = .negation ∨ t.kind = .additive) (h : unaryOp t = .ok op) :
    t.unaryOp? = some op := by
  have hsymbol : UnaryOp.ofSymbol? t.src = some op := by
    unfold unaryOp at h
    split at h
    · rename_i hs
      rw [hs, Except.ok.inj h]
    · cases h
  unfold Token.WellSpelled at hwell
  unfold Token.unaryOp?
  rcases hk with hk | hk
  · rw [hk] at hwell ⊢
    rw [hwell] at hsymbol ⊢
    obtain rfl := Option.some.inj hsymbol
    rfl
  · simp only [hk, List.mem_cons, List.not_mem_nil, or_false] at hwell ⊢
    rcases hwell with hs | hs
    · rw [hs] at hsymbol ⊢
      obtain rfl := Option.some.inj hsymbol
      rfl
    · rw [hs] at hsymbol ⊢
      obtain rfl := Option.some.inj hsymbol
      rfl

/-- An infix operator that is read is the one with the text of its token. -/
theorem ofSymbol?_of_binaryOp {t : Token} {op : BinaryOp} (h : binaryOp t = .ok op) :
    BinaryOp.ofSymbol? t.src = some op := by
  unfold binaryOp at h
  split at h
  · rename_i hs
    rw [hs, Except.ok.inj h]
  · cases h

namespace State

/-- No operand starts right after another. -/
theorem expectsOperand_of_checkOperand {s : State} {ts : List Token} {t : Token}
    (hs : s.Reads ts) (h : s.checkOperand t = .ok ()) : s.expectsOperand = true := by
  cases hs with
  | waiting => rfl
  | complete => cases h

/-- Reading a leaf or an interpolation adds its token. -/
theorem push_reads {s : State} {ts us : List Token} {e : Expr} (hs : s.Reads ts)
    (hexp : s.expectsOperand = true) (he : IsTree e us) (hroot : e.root? = none) :
    (s.push e).Reads (ts ++ us) := by
  cases hs with
  | waiting below => exact .complete below he hroot
  | complete => cases hexp

/-- Reading a prefix operator adds its token. -/
theorem addUnary_reads {s s' : State} {ts : List Token} {t : Token} (hs : s.Reads ts)
    (hexp : s.expectsOperand = true) (hwell : t.WellSpelled)
    (hk : t.kind = .negation ∨ t.kind = .additive) (h : s.addUnary t = .ok s') :
    s'.Reads (ts ++ [t]) := by
  obtain ⟨op, hop, rfl⟩ := bind_pure_eq_ok_iff.1 h
  cases hs with
  | waiting below => exact .waiting (.unary (unaryOp?_of_unaryOp hwell hk hop) below)
  | complete => cases hexp

/-- Reading an infix operator adds its token. -/
theorem addBinary_reads {s s' : State} {ts : List Token} {t : Token} (hs : s.Reads ts)
    (hk : ∀ op, BinaryOp.ofSymbol? t.src = some op → t.binaryOp? = some op)
    (h : s.addBinary t = .ok s') : s'.Reads (ts ++ [t]) := by
  cases hs with
  | waiting => cases h
  | @complete ps es e ts us below top whole =>
    obtain ⟨op, hop, h⟩ := bind_eq_ok_iff.1 h
    obtain ⟨⟨es', ps'⟩, happly, rfl⟩ := bind_pure_eq_ok_iff.1 h
    have hnone : ∀ root, e.root? = some root →
        ∃ t, (Pending.binary root t).appliesBefore op = true := by
      intro root hroot
      rw [whole] at hroot
      cases hroot
    obtain ⟨e', es'', ts', us', rfl, hs', he', heq, hroot⟩ :=
      applyWhile_isTree below top (under_of_root? whole ps) hnone happly
    have hfits : Expr.LeftFits op e' := (Expr.leftFits_iff op e').2 fun inner hinner => by
      obtain ⟨_, hbefore⟩ := hroot inner hinner
      exact hbefore
    have hwaits : ∀ p ∈ ps'.head?, ¬ p.appliesBefore op = true := by
      intro p hp
      rw [applyWhile_pending happly] at hp
      have := List.head?_dropWhile_not (·.appliesBefore op) ps
      rw [Option.mem_def.1 hp] at this
      simpa using this
    rw [← heq]
    exact .waiting (.binary (hk op (ofSymbol?_of_binaryOp hop)) he' hfits hwaits hs')

/-- Reading a closing parenthesis adds its token. -/
theorem close_reads {s s' : State} {ts : List Token} {t : Token} (hs : s.Reads ts)
    (hk : t.kind = .closeParen) (h : s.close t = .ok s') : s'.Reads (ts ++ [t]) := by
  unfold close at h
  split at h
  · cases h
  rename_i hopen
  split at h
  · cases h
  rename_i hexp
  cases hs with
  | waiting => exact absurd rfl hexp
  | @complete ps es e ts us below top whole =>
    obtain ⟨⟨es', ps'⟩, happly, h⟩ := bind_eq_ok_iff.1 h
    obtain ⟨⟨inside, rest⟩, hpop, rfl⟩ := bind_pure_eq_ok_iff.1 h
    have hnone : ∀ root, e.root? = some root →
        ∃ t, (!(Pending.binary root t).isOpen) = true := fun _ _ => ⟨t, rfl⟩
    obtain ⟨e', es'', ts', us', rfl, hs', he', heq, _⟩ :=
      applyWhile_isTree below top (under_of_root? whole ps) hnone happly
    obtain ⟨rfl, rfl⟩ := Prod.mk.inj (Except.ok.inj hpop)
    -- The operators down to the parenthesis are applied, so it is on top.
    have hps := applyWhile_pending happly
    cases hs' with
    | nil =>
      have hall := (List.dropWhile_eq_nil_iff.1 hps.symm)
      simp only [Bool.not_eq_true, Bool.not_eq_false', List.any_eq_true] at hopen
      obtain ⟨p, hp, hpopen⟩ := hopen
      have := hall p hp
      rw [hpopen] at this
      cases this
    | @opened first ps' _ ts' kind below' =>
      rw [← heq, List.append_assoc, List.append_assoc]
      refine .complete below' ⟨.group kind hk he'.spells, ⟨he'.wellGrouped, fun h => absurd rfl h⟩,
        he'.branched⟩ rfl
    | unary | binary =>
      have := List.head?_dropWhile_not (fun p : Pending => !p.isOpen) ps
      rw [← hps] at this
      simp [Pending.isOpen] at this

/-- Every token that is no blank is added to what is read, if `nested` reads interpolations as
trees. -/
theorem step_reads {nested : Token → Except Fault Expr} {s s' : State} {ts : List Token}
    {t : Token} (hs : s.Reads ts) (hwell : t.WellSpelled) (hspace : t.kind ≠ .space)
    (hnested : ∀ e, t.kind = .interpolation → nested t = .ok e → IsTree (.unary .group e) [t])
    (h : State.step nested s t = .ok s') : s'.Reads (ts ++ [t]) := by
  have checked {α : Type} {f : Unit → Except Fault α} {a : α}
      (h : s.checkOperand t >>= f = .ok a) : s.expectsOperand = true ∧ f () = .ok a := by
    obtain ⟨_, hcheck, hf⟩ := bind_eq_ok_iff.1 h
    exact ⟨expectsOperand_of_checkOperand hs hcheck, hf⟩
  have leaf {e : Expr} (he : t.leaf? = some e) (hexp : s.expectsOperand = true) :
      (s.push e).Reads (ts ++ [t]) := by
    refine push_reads hs hexp ⟨.leaf he, ?_, ?_⟩ ?_
    · rcases Token.leaf?_cases he with ⟨_, rfl⟩ | ⟨_, rfl⟩ | ⟨_, rfl⟩ <;> trivial
    · rcases Token.leaf?_cases he with ⟨_, rfl⟩ | ⟨_, rfl⟩ | ⟨_, rfl⟩ <;> trivial
    · rcases Token.leaf?_cases he with ⟨_, rfl⟩ | ⟨_, rfl⟩ | ⟨_, rfl⟩ <;> rfl
  unfold State.step at h
  cases hk : t.kind <;> rw [hk] at h
  case space => exact absurd hk hspace
  case openParen =>
    obtain ⟨hexp, h⟩ := checked h
    obtain rfl := Except.ok.inj h
    cases hs with
    | waiting below => exact .waiting (.opened hk below)
    | complete => cases hexp
  case closeParen => exact close_reads hs hk h
  case interpolation =>
    obtain ⟨hexp, h⟩ := checked h
    obtain ⟨e, he, rfl⟩ := bind_pure_eq_ok_iff.1 h
    exact push_reads hs hexp (hnested e hk he) rfl
  case reference =>
    obtain ⟨hexp, h⟩ := checked h
    obtain rfl := Except.ok.inj h
    exact leaf (by unfold Token.leaf?; rw [hk]) hexp
  case property =>
    obtain ⟨hexp, h⟩ := checked h
    obtain rfl := Except.ok.inj h
    exact leaf (by unfold Token.leaf?; rw [hk]) hexp
  case literal =>
    obtain ⟨hexp, h⟩ := checked h
    obtain ⟨e, he, rfl⟩ := bind_pure_eq_ok_iff.1 h
    refine leaf ?_ hexp
    unfold Token.leaf?
    rw [hk]
    simp [he, Except.toOption]
  case negation =>
    obtain ⟨hexp, h⟩ := checked h
    exact addUnary_reads hs hexp hwell (.inl hk) h
  case additive =>
    -- A sign where an operand is expected, and an operator otherwise.
    dsimp only at h
    split at h
    · rename_i hexp
      exact addUnary_reads hs hexp hwell (.inr hk) h
    · exact addBinary_reads hs (fun op hop => by unfold Token.binaryOp?; rw [hk]; exact hop) h
  all_goals
    exact addBinary_reads hs (fun op hop => by unfold Token.binaryOp?; rw [hk]; exact hop) h

/-- All tokens but the blanks are read. -/
theorem foldlM_reads {nested : Token → Except Fault Expr} {s s' : State} {before ts : List Token}
    (hs : s.Reads before) (hwell : ∀ t ∈ ts, t.WellSpelled)
    (hnested : ∀ t ∈ ts, ∀ e, t.kind = .interpolation → nested t = .ok e →
      IsTree (.unary .group e) [t])
    (h : ts.foldlM (State.step nested) s = .ok s') : s'.Reads (before ++ Token.visible ts) := by
  induction ts generalizing s before with
  | nil =>
    obtain rfl := Except.ok.inj h
    rwa [Token.visible, List.filter_nil, List.append_nil]
  | cons t ts ih =>
    rw [List.foldlM_cons] at h
    obtain ⟨mid, hstep, h⟩ := bind_eq_ok_iff.1 h
    have hrest {before : List Token} (hmid : mid.Reads before) :
        s'.Reads (before ++ Token.visible ts) :=
      ih hmid (fun t ht => hwell t (List.mem_cons_of_mem _ ht))
        (fun t ht => hnested t (List.mem_cons_of_mem _ ht)) h
    by_cases hspace : t.kind = .space
    · rw [Token.visible, List.filter_cons_of_neg (by simp [hspace])]
      refine hrest ?_
      unfold State.step at hstep
      rw [hspace] at hstep
      obtain rfl := Except.ok.inj hstep
      exact hs
    · rw [Token.visible, List.filter_cons_of_pos (by simpa using hspace), ← List.singleton_append,
        ← List.append_assoc]
      exact hrest (step_reads hs (hwell t List.mem_cons_self) hspace
        (hnested t List.mem_cons_self) hstep)

/-- A source that is read to its end is read as a tree of its tokens. -/
theorem finish_isTree {s : State} {ts : List Token} {offset : Nat} {e : Expr} (hs : s.Reads ts)
    (h : s.finish offset = .ok e) : IsTree e ts := by
  unfold finish at h
  split at h
  · cases h
  split at h
  · cases h
  rename_i hexp
  cases hs with
  | waiting => exact absurd rfl hexp
  | @complete ps es e ts us below top whole =>
    obtain ⟨⟨es', ps'⟩, happly, h⟩ := bind_eq_ok_iff.1 h
    obtain ⟨⟨_, _⟩, hpop, rfl⟩ := bind_pure_eq_ok_iff.1 h
    obtain ⟨e', es'', ts', us', rfl, hs', he', heq, _⟩ :=
      applyWhile_isTree below top (under_of_root? whole ps) (fun _ _ => ⟨⟨.space, "", 0⟩, rfl⟩)
        happly
    obtain ⟨rfl, rfl⟩ := Prod.mk.inj (Except.ok.inj hpop)
    obtain rfl : ps' = [] := by
      rw [applyWhile_pending happly, List.dropWhile_eq_nil_iff]
      exact fun _ _ => rfl
    cases hs'
    rwa [← heq]

end State

/-- What the parser returns is a tree of its tokens. -/
theorem run_isTree {levels offset : Nat} {ts : List Token} {e : Expr}
    (hwell : ∀ t ∈ ts, t.WellSpelled) (h : run levels offset ts = .ok e) :
    IsTree e (Token.visible ts) := by
  induction levels generalizing offset ts e with
  | zero => cases h
  | succ levels ih =>
    rw [run_succ] at h
    obtain ⟨s, hfold, hfinish⟩ := bind_eq_ok_iff.1 h
    have hnested : ∀ t ∈ ts, ∀ e, t.kind = .interpolation → inner levels t = .ok e →
        IsTree (.unary .group e) [t] := by
      intro t _ e hk he
      obtain ⟨us, hscan, hrun⟩ := bind_eq_ok_iff.1 he
      have htree := ih (fun t ht => (Token.mem_scan hscan ht).1) hrun
      exact ⟨.interpolation hk hscan htree.spells, ⟨htree.wellGrouped, fun h => absurd rfl h⟩,
        htree.branched⟩
    have hreads := foldlM_reads (.waiting .nil) hwell hnested hfold
    rw [List.nil_append] at hreads
    exact finish_isTree hreads hfinish

end Parser

end LiveScope
