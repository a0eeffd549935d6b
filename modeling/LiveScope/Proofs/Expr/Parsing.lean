import LiveScope.Proofs.Expr.Stacks

/-!
# The parser accepts its grammar

`Expr.parse_iff_group` says which lists of tokens are expressions and that the tree of each is the
one well grouped tree that it spells.

`Parser.run_isTree` gives one direction. For the other the parser is run on the spelling of a well
grouped tree: what it leaves on its stacks is the right spine of the tree taken apart
(`Parser.Spine`), which the next operator that is applied later puts together again. A `?` without
branches is noticed when the spine is put together and not before, hence `Parser.Gives`: the run
gives the tree or fails, and it cannot fail if all branches are there. The failing case makes the
tree unique among those that lack branches as well.
-/

namespace LiveScope

namespace Parser

open State

/-- An operation that gives `a` if it gives anything, and fails only if `sure` does not hold. -/
def Gives {α : Type} (x : Except Fault α) (a : α) (sure : Prop) : Prop :=
  x = .ok a ∨ ¬ sure ∧ ∃ f, x = .error f

namespace Gives

variable {α β : Type} {x : Except Fault α} {a : α} {p q : Prop}

/-- What succeeds gives its result. -/
theorem of_eq (h : x = .ok a) : Gives x a p := .inl h

/-- What is sure under a weaker condition is sure under a stronger one. -/
theorem mono (h : Gives x a p) (hqp : q → p) : Gives x a q := by
  rcases h with h | ⟨hp, h⟩
  · exact .inl h
  · exact .inr ⟨fun hq => hp (hqp hq), h⟩

/-- A sequence of two operations gives what the second gives for the result of the first. -/
theorem bind {f : α → Except Fault β} {b : β} (h : Gives x a p) (hf : Gives (f a) b q) :
    Gives (x >>= f) b (p ∧ q) := by
  rcases h with rfl | ⟨hp, fault, rfl⟩
  · exact hf.mono And.right
  · exact .inr ⟨fun h => hp h.1, fault, rfl⟩

/-- A second operation that succeeds makes no difference. -/
theorem andThen {f : α → Except Fault β} {b : β} (h : Gives x a p) (hf : f a = .ok b) :
    Gives (x >>= f) b p :=
  (h.bind (.of_eq (p := True) hf)).mono fun hp => ⟨hp, trivial⟩

/-- A first operation that succeeds makes no difference. -/
theorem after {f : α → Except Fault β} {b : β} (hx : x = .ok a) (h : Gives (f a) b q) :
    Gives (x >>= f) b q := by
  rw [hx]
  exact h

/-- There is no other result. -/
theorem unique {b : α} (h : Gives x a p) (hb : x = .ok b) : b = a := by
  rcases h with h | ⟨_, fault, h⟩
  · exact Except.ok.inj (hb.symm.trans h)
  · cases hb.symm.trans h

end Gives

/-- A tree taken apart along its right spine: what is put together waits as operands and operators,
the last first. -/
inductive Spine : Expr → List Expr → List Pending → Prop
  | whole {e : Expr} : Spine e [e] []
  | unary {op : UnaryOp} {e : Expr} {t : Token} {es : List Expr} {ps : List Pending}
      (op_ne : op ≠ .group) (operand : Spine e es ps) :
      Spine (.unary op e) es (ps ++ [.unary op t])
  | binary {op : BinaryOp} {l r : Expr} {t : Token} {es : List Expr} {ps : List Pending}
      (right : Spine r es ps) : Spine (.binary op l r) (es ++ [l]) (ps ++ [.binary op t])

namespace Spine

/-- No parenthesis waits on a spine. -/
theorem isOpen_eq_false {e : Expr} {es : List Expr} {ps : List Pending} (h : Spine e es ps) :
    ∀ p ∈ ps, p.isOpen = false := by
  induction h with
  | whole => simp
  | unary _ _ ih =>
    intro p hp
    rcases List.mem_append.1 hp with hp | hp
    · exact ih p hp
    · obtain rfl := List.mem_singleton.1 hp
      rfl
  | binary _ ih =>
    intro p hp
    rcases List.mem_append.1 hp with hp | hp
    · exact ih p hp
    · obtain rfl := List.mem_singleton.1 hp
      rfl

/-- An operator that the root of a tree is applied before is one that the whole spine is applied
before. -/
theorem appliesBefore {e : Expr} {es : List Expr} {ps : List Pending} (h : Spine e es ps)
    (hwell : e.WellGrouped) {next : BinaryOp}
    (hroot : ∀ root, e.root? = some root → root.bindsBefore next = true) :
    ∀ p ∈ ps, p.appliesBefore next = true := by
  induction h with
  | whole => simp
  | unary op_ne _ ih =>
    intro p hp
    rcases List.mem_append.1 hp with hp | hp
    · refine ih hwell.1 (fun root hr => ?_) p hp
      rw [hwell.2 op_ne] at hr
      cases hr
    · obtain rfl := List.mem_singleton.1 hp
      rfl
  | @binary op l r t _ _ _ ih =>
    intro p hp
    obtain ⟨_, hr, _, hrf⟩ := hwell
    have hop := hroot op rfl
    rcases List.mem_append.1 hp with hp | hp
    · refine ih hr (fun root hrr => ?_) p hp
      exact BinaryOp.bindsBefore_of_not hop ((Expr.rightFits_iff op r).1 hrf root hrr)
    · obtain rfl := List.mem_singleton.1 hp
      exact hop

/-- Applying a whole spine puts its tree together, unless a `?` in it has no branches. -/
theorem applyWhile_append {e : Expr} {es : List Expr} {ps : List Pending} (h : Spine e es ps)
    (condition : Pending → Bool) (hall : ∀ p ∈ ps, condition p = true)
    (below : List Expr) (waiting : List Pending) {result : List Expr × List Pending} {sure : Prop}
    (hrest : Gives (applyWhile condition (e :: below) waiting) result sure) :
    Gives (applyWhile condition (es ++ below) (ps ++ waiting)) result (e.Branched ∧ sure) := by
  induction h generalizing below waiting sure with
  | whole => exact hrest.mono And.right
  | @unary op e t es ps _ _ ih =>
    rw [List.append_assoc]
    refine ih (fun p hp => hall p (List.mem_append_left _ hp)) below _ ?_
    have hcond : condition (.unary op t) = true := hall _ (by simp)
    rw [List.singleton_append, applyWhile, if_pos hcond]
    exact hrest
  | @binary op l r t es ps _ ih =>
    rw [List.append_assoc, List.append_assoc]
    have hcond : condition (.binary op t) = true := hall _ (by simp)
    have hnode : Gives (applyWhile condition (r :: l :: below) (.binary op t :: waiting)) result
        ((op = .question → r.isBranches = true) ∧ sure) := by
      rw [applyWhile, if_pos hcond]
      refine Gives.bind (a := .binary op l r :: below) ?_ hrest
      by_cases hbranch : op = .question ∧ (!r.isBranches) = true
      · -- A question without branches is a fault, which the premise on the tree excludes.
        refine .inr ⟨fun h => ?_, _, if_pos hbranch⟩
        have := h hbranch.1
        rw [this] at hbranch
        cases hbranch.2
      · exact .of_eq (if_neg hbranch)
    refine (ih (fun p hp => hall p (List.mem_append_left _ hp)) (l :: below) _ hnode).mono ?_
    rintro ⟨⟨_, hr, hbranches⟩, hsure⟩
    exact ⟨hr, hbranches, hsure⟩

end Spine

/-- Blanks are skipped. -/
theorem foldlM_visible (nested : Token → Except Fault Expr) (s : State) (ts : List Token) :
    (Token.visible ts).foldlM (State.step nested) s = ts.foldlM (State.step nested) s := by
  induction ts generalizing s with
  | nil => rfl
  | cons t ts ih =>
    by_cases hspace : t.kind = .space
    · rw [Token.visible, List.filter_cons_of_neg (by simp [hspace]), List.foldlM_cons]
      have hstep : State.step nested s t = .ok s := by
        unfold State.step
        rw [hspace]
      rw [hstep]
      exact ih s
    · rw [Token.visible, List.filter_cons_of_pos (by simpa using hspace), List.foldlM_cons,
        List.foldlM_cons]
      exact congrArg _ (funext ih)

/-- Nothing is applied if the condition does not hold of the operator on top. -/
theorem applyWhile_eq_self {condition : Pending → Bool} {ps : List Pending}
    (h : ∀ p ∈ ps.head?, ¬ condition p = true) (es : List Expr) :
    applyWhile condition es ps = .ok (es, ps) := by
  cases ps with
  | nil => rfl
  | cons p ps =>
    rw [applyWhile, if_neg (h p rfl)]

/-- The left operand of an infix node stands where the node does. -/
theorem Under.left {ps : List Pending} {op : BinaryOp} {l r : Expr}
    (h : Under ps (.binary op l r)) (hfits : Expr.LeftFits op l) : Under ps l := by
  intro p hp root hroot hbefore
  have hlater := (Expr.leftFits_iff op l).1 hfits root hroot
  refine h p hp op rfl ?_
  cases p with
  | opened => cases hbefore
  | unary => rfl
  | binary => exact BinaryOp.bindsBefore_trans hbefore hlater

/-- The right operand of an infix node stands after its operator. -/
theorem under_right {ps : List Pending} {op : BinaryOp} {t : Token} {r : Expr}
    (hfits : Expr.RightFits op r) : Under (.binary op t :: ps) r := by
  intro p hp root hroot
  obtain rfl := Option.some.inj hp
  exact (Expr.rightFits_iff op r).1 hfits root hroot

namespace State

variable {nested : Token → Except Fault Expr} {es xs : List Expr} {ps fs : List Pending}
  {t : Token} {e : Expr}

/-- An operand may start where one is expected. -/
theorem checkOperand_eq_ok (es : List Expr) (ps : List Pending) (t : Token) :
    checkOperand ⟨es, ps, true⟩ t = .ok () := by
  cases es <;> rfl

/-- A leaf goes onto the operands. -/
theorem step_leaf (he : t.leaf? = some e) :
    State.step nested ⟨es, ps, true⟩ t = .ok ⟨e :: es, ps, false⟩ := by
  unfold Token.leaf? at he
  unfold State.step
  split at he
  · rename_i hk
    obtain rfl := Option.some.inj he
    simp only [hk, checkOperand_eq_ok]
    rfl
  · rename_i hk
    obtain rfl := Option.some.inj he
    simp only [hk, checkOperand_eq_ok]
    rfl
  · rename_i hk
    cases hlit : Expr.ofLiteral t with
    | ok e' =>
      rw [hlit] at he
      obtain rfl := Option.some.inj he
      simp only [hk, checkOperand_eq_ok]
      rfl
    | error =>
      rw [hlit] at he
      cases he
  · cases he

/-- A prefix operator waits for its operand. -/
theorem step_unary {op : UnaryOp} (hop : t.unaryOp? = some op) :
    State.step nested ⟨es, ps, true⟩ t = .ok ⟨es, .unary op t :: ps, true⟩ := by
  have hadd (hsymbol : UnaryOp.ofSymbol? t.src = some op) :
      addUnary ⟨es, ps, true⟩ t = .ok ⟨es, .unary op t :: ps, true⟩ := by
    unfold addUnary unaryOp
    rw [hsymbol]
    rfl
  unfold Token.unaryOp? at hop
  unfold State.step
  split at hop
  · rename_i hk
    simp only [hk, checkOperand_eq_ok]
    exact hadd (Option.filter_eq_some_iff.1 hop).1
  · rename_i hk
    simp only [hk]
    exact hadd (Option.filter_eq_some_iff.1 hop).1
  · cases hop

/-- An infix operator puts together what it is applied after, and waits. -/
theorem step_binary {op : BinaryOp} (hop : t.binaryOp? = some op) (hspine : Spine e xs fs)
    (hwell : e.WellGrouped) (hfits : Expr.LeftFits op e)
    (hwaits : ∀ p ∈ ps.head?, ¬ p.appliesBefore op = true) :
    Gives (State.step nested ⟨xs ++ es, fs ++ ps, false⟩ t) ⟨e :: es, .binary op t :: ps, true⟩
      e.Branched := by
  have hadd (hsymbol : BinaryOp.ofSymbol? t.src = some op) :
      Gives (addBinary ⟨xs ++ es, fs ++ ps, false⟩ t) ⟨e :: es, .binary op t :: ps, true⟩
        e.Branched := by
    have hread : binaryOp t = .ok op := by
      unfold binaryOp
      rw [hsymbol]
    have happly := hspine.applyWhile_append (·.appliesBefore op)
      (hspine.appliesBefore hwell ((Expr.leftFits_iff op e).1 hfits)) es ps
      (Gives.of_eq (p := True) (applyWhile_eq_self hwaits (e :: es)))
    unfold addBinary
    exact .after hread ((happly.mono fun h => ⟨h, trivial⟩).andThen rfl)
  unfold Token.binaryOp? at hop
  unfold State.step
  split at hop
  all_goals first
    | cases hop
    | rename_i hk
      simp only [hk]
      exact hadd hop

/-- An opening parenthesis waits. -/
theorem step_open (hk : t.kind = .openParen) :
    State.step nested ⟨es, ps, true⟩ t = .ok ⟨es, .opened t :: ps, true⟩ := by
  unfold State.step
  simp only [hk, checkOperand_eq_ok]
  rfl

/-- A closing parenthesis puts the group together. -/
theorem step_close (hk : t.kind = .closeParen) (hspine : Spine e xs fs) (first : Token) :
    Gives (State.step nested ⟨xs ++ es, fs ++ .opened first :: ps, false⟩ t)
      ⟨.unary .group e :: es, ps, false⟩ e.Branched := by
  have hopen : (fs ++ .opened first :: ps).any (·.isOpen) = true := by
    simp [Pending.isOpen]
  have happly := hspine.applyWhile_append (!·.isOpen)
    (fun p hp => by rw [hspine.isOpen_eq_false p hp]; rfl) es (.opened first :: ps)
    (Gives.of_eq (p := True) (applyWhile_eq_self (by simp [Pending.isOpen]) (e :: es)))
  unfold State.step
  simp only [hk]
  unfold close
  simp only [hopen, Bool.not_true, Bool.false_eq_true, if_false]
  exact (happly.mono fun h => ⟨h, trivial⟩).andThen rfl

/-- The end of a source puts the whole tree together. -/
theorem finish_gives (hspine : Spine e xs fs) (offset : Nat) :
    Gives (finish ⟨xs ++ [], fs ++ [], false⟩ offset) e e.Branched := by
  have hopen : firstOpen? ⟨xs ++ [], fs ++ [], false⟩ = none := by
    unfold firstOpen?
    rw [List.findSome?_eq_none_iff]
    intro p hp
    have := hspine.isOpen_eq_false p (by simpa using hp)
    cases p with
    | opened => cases this
    | unary | binary => rfl
  have happly := hspine.applyWhile_append (fun _ => true) (fun _ _ => rfl) [] []
    (Gives.of_eq (p := True) (applyWhile_eq_self (by simp) [e]))
  unfold finish
  simp only [hopen, Bool.false_eq_true, if_false]
  exact (happly.mono fun h => ⟨h, trivial⟩).andThen rfl

end State

/-- Reading the spelling of a well grouped tree leaves the right spine of the tree on the stacks.
The levels suffice if they outnumber the quotes that interpolations can open strings by. -/
theorem foldlM_gives {e : Expr} {ts : List Token} (h : Spells e ts) (hwell : e.WellGrouped)
    (levels : Nat)
    (hdeep : ∀ t ∈ ts, t.kind = .interpolation → Lexeme.openQuotes t.src.toList < levels)
    (es : List Expr) (ps : List Pending) (hu : Under ps e) :
    ∃ xs fs, Spine e xs fs ∧ Gives (ts.foldlM (State.step (inner levels)) ⟨es, ps, true⟩)
      ⟨xs ++ es, fs ++ ps, false⟩ e.Branched := by
  induction h generalizing levels es ps with
  | @leaf t e tree =>
    refine ⟨[e], [], .whole, .of_eq ?_⟩
    rw [List.foldlM_cons, step_leaf tree]
    rfl
  | @interpolation t ts e kind scan _ ih =>
    -- The source of an interpolation is parsed by itself, with one level less.
    refine ⟨[.unary .group e], [], .whole, ?_⟩
    have hlevels := hdeep t List.mem_cons_self kind
    obtain ⟨levels, rfl⟩ := Nat.exists_eq_add_one_of_ne_zero (Nat.ne_zero_of_lt hlevels)
    obtain ⟨xs, fs, hspine, hgives⟩ := ih hwell.1 levels (fun t' ht' hk => by
      have := Token.openQuotes_lt scan (List.mem_of_mem_filter ht') hk
      omega) [] [] (by simp [Under])
    rw [foldlM_visible] at hgives
    have hinner : Gives (inner (levels + 1) t) e e.Branched := by
      unfold inner
      refine .after scan ?_
      rw [run_succ]
      exact (hgives.bind (finish_gives hspine t.offset)).mono fun h => ⟨h, h⟩
    have hstep : Gives (State.step (inner (levels + 1)) ⟨es, ps, true⟩ t)
        ⟨.unary .group e :: es, ps, false⟩ e.Branched := by
      unfold State.step
      simp only [kind, checkOperand_eq_ok]
      exact .after rfl (hinner.andThen rfl)
    rw [List.foldlM_cons]
    exact hstep.andThen rfl
  | @group first last ts e opens closes _ ih =>
    -- What is inside is read over the open parenthesis, and put together when it is closed.
    refine ⟨[.unary .group e], [], .whole, ?_⟩
    obtain ⟨xs, fs, hspine, hgives⟩ := ih hwell.1 levels
      (fun t ht => hdeep t (by simp [ht])) es (.opened first :: ps)
      (fun p hp root _ => by obtain rfl := Option.some.inj hp; exact Bool.false_ne_true)
    rw [List.cons_append, List.foldlM_cons]
    refine .after (step_open opens) ?_
    rw [List.foldlM_append]
    refine (hgives.bind (q := e.Branched) ?_).mono fun h => ⟨h, h⟩
    rw [List.foldlM_cons]
    exact (step_close closes hspine first).andThen rfl
  | @unary t ts op e op_eq _ ih =>
    obtain ⟨xs, fs, hspine, hgives⟩ := ih hwell.1 levels
      (fun t ht => hdeep t (List.mem_cons_of_mem _ ht)) es (.unary op t :: ps)
      (under_of_root? (hwell.2 (Token.ne_group_of_unaryOp? op_eq)) _)
    refine ⟨xs, fs ++ [.unary op t], .unary (Token.ne_group_of_unaryOp? op_eq) hspine, ?_⟩
    rw [List.foldlM_cons, List.append_assoc]
    exact .after (step_unary op_eq) hgives
  | @binary t ts us op l r _ op_eq _ ihl ihr =>
    -- The operator puts the left operand together, and the right one is read above both.
    obtain ⟨hl, hr, hlf, hrf⟩ := hwell
    obtain ⟨xl, fl, hspinel, hgivesl⟩ := ihl hl levels
      (fun t ht => hdeep t (List.mem_append_left _ ht)) es ps (hu.left hlf)
    obtain ⟨xr, fr, hspiner, hgivesr⟩ := ihr hr levels
      (fun t ht => hdeep t (List.mem_append_right _ (List.mem_cons_of_mem _ ht))) (l :: es)
      (.binary op t :: ps) (under_right hrf)
    refine ⟨xr ++ [l], fr ++ [.binary op t], .binary hspiner, ?_⟩
    rw [List.foldlM_append, List.append_assoc, List.append_assoc]
    refine (hgivesl.bind (q := l.Branched ∧ r.Branched) ?_).mono fun h => ⟨h.1, h.1, h.2.1⟩
    rw [List.foldlM_cons]
    exact (step_binary op_eq hspinel hl hlf fun p hp => hu p hp op rfl).bind hgivesr

/-- The spelling of a well grouped tree is read as that tree, unless a `?` in it has no branches. -/
theorem run_gives {e : Expr} {ts : List Token} (h : Spells e (Token.visible ts))
    (hwell : e.WellGrouped) {levels : Nat} (offset : Nat)
    (hdeep : ∀ t ∈ ts, t.kind = .interpolation → Lexeme.openQuotes t.src.toList < levels) :
    Gives (run (levels + 1) offset ts) e e.Branched := by
  obtain ⟨xs, fs, hspine, hgives⟩ := foldlM_gives h hwell levels
    (fun t ht => hdeep t (List.mem_of_mem_filter ht)) [] [] (by simp [Under])
  rw [foldlM_visible] at hgives
  rw [run_succ]
  exact (hgives.bind (finish_gives hspine offset)).mono fun h => ⟨h, h⟩

end Parser

namespace Expr

open LiveScope.Parser

/-- The spelling of a well grouped tree is parsed as that tree, unless a `?` in it has no
branches. -/
theorem parse_gives {e : Expr} {ts : List Token} (h : Spells e (Token.visible ts))
    (hwell : e.WellGrouped) : Gives (parse ts) e e.Branched := by
  refine run_gives h hwell 0 fun t _ _ => ?_
  have := Lexeme.openQuotes_le t.src.toList
  show _ < maxDepth
  unfold maxDepth
  omega

/-- The parser accepts the lists of tokens that make up a group, and the tree that it returns is the
only well grouped one with their spelling. -/
theorem parse_iff_group (ts : List Token) (hwell : ∀ t ∈ ts, t.WellSpelled) :
    ((∃ e, parse ts = .ok e) ↔ Phrase.Group Token.Readable (Token.visible ts)) ∧
      ∀ e, parse ts = .ok e → Spells e (Token.visible ts) ∧ e.WellGrouped ∧
        ∀ e', Spells e' (Token.visible ts) → e'.WellGrouped → e' = e := by
  refine ⟨⟨?_, ?_⟩, ?_⟩
  · rintro ⟨e, h⟩
    have htree := run_isTree hwell h
    obtain ⟨hpaired, hgroups⟩ := (branched_iff_paired htree.wellGrouped).1 htree.branched
    exact ⟨e.operators, (Phrase.of_spells htree.spells htree.wellGrouped hgroups).1, hpaired⟩
  · rintro ⟨ops, hphrase, hpaired⟩
    obtain ⟨e, hspells, hgrouped, hgroups, rfl⟩ := hphrase.exists_wellGrouped
    have hbranched := (branched_iff_paired hgrouped).2 ⟨hpaired, hgroups⟩
    rcases parse_gives hspells hgrouped with h | ⟨hnot, _⟩
    · exact ⟨e, h⟩
    · exact absurd hbranched hnot
  · intro e h
    have htree := run_isTree hwell h
    refine ⟨htree.spells, htree.wellGrouped, fun e' hspells hgrouped => ?_⟩
    exact ((parse_gives hspells hgrouped).unique h).symm

/-- `!a + b * @c` makes up a group and has one well grouped tree. -/
theorem parse_iff_group_sum :
    let ts : List Token := [⟨.negation, "!", 0⟩, ⟨.reference, "a", 1⟩, ⟨.space, " ", 2⟩,
      ⟨.additive, "+", 3⟩, ⟨.reference, "b", 5⟩, ⟨.multiplicative, "*", 7⟩, ⟨.property, "@c", 9⟩]
    Phrase.Group Token.Readable (Token.visible ts) ∧
      ∀ e, Spells e (Token.visible ts) → e.WellGrouped →
        e = .binary .add (.unary .not (.reference ⟨0, "a"⟩))
          (.binary .mul (.reference ⟨0, "b"⟩) (.property "c")) := by
  intro ts
  have h := parse_iff_group ts (by decide)
  have hparse : parse ts = .ok (.binary .add (.unary .not (.reference ⟨0, "a"⟩))
      (.binary .mul (.reference ⟨0, "b"⟩) (.property "c"))) := by rfl
  exact ⟨h.1.1 ⟨_, hparse⟩, (h.2 _ hparse).2.2⟩

/-- A literal token that denotes no constant is no expression, although an operand stands where one
has to. -/
theorem group_not_parsed :
    let ts : List Token := [⟨.literal, "1_000", 0⟩]
    (∀ t ∈ ts, t.WellSpelled) ∧ Phrase.Group (fun _ => True) (Token.visible ts) ∧
      ¬ ∃ e, parse ts = .ok e := by
  intro ts
  refine ⟨by decide, ⟨[], .single (.leaf (.inr (.inr rfl)) fun _ => trivial), ?_⟩, ?_⟩
  · exact BinaryOp.paired_nil
  · rintro ⟨e, h⟩
    have hfault : parse ts = .error (.malformed 0 (.invalidNumber "1_000")) := by rfl
    rw [hfault] at h
    cases h

end Expr

end LiveScope
