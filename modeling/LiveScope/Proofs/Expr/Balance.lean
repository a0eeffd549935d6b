import LiveScope.Proofs.Expr.Evaluation
import LiveScope.Proofs.Expr.Spans

/-!
# The stacks of the parser are balanced

`Parser.pop` and `Parser.apply` have outcomes for a stack that lacks an operand and for a
parenthesis that is applied. They are never reached: between two tokens there is one operand for
every infix operator that waits, and one more after an operand (`Parser.State.Balanced`). Each step
keeps this for any token whatsoever (`State.step_ends`), so it holds of a whole run, and the faults
of a run are those of its tokens (`Parser.run_ends`). The trees that come out have their branches,
so that evaluation has no stray case either (`Expr.eval_ends`).
-/

namespace LiveScope

namespace SourceFault

/-- Whether a fault is one of the order of tokens or of the text of an operator. -/
def IsSyntactic : SourceFault → Prop
  | nestedInterpolations | unexpectedAfter _ _ | missingLeft _ | missingRight _ | unexpectedClose
  | emptyParentheses | unbalanced | emptyExpression | missingBranch | notPrefixOperator _
  | notInfixOperator _ => True
  | _ => False

/-- Whether a fault is one of the parser's stacks and not of the tokens. -/
def IsInternal : SourceFault → Prop
  | noOperandWaiting | noOperatorWaiting | parenthesisApplied => True
  | _ => False

end SourceFault

namespace Parser

/-! ## Stacks -/

namespace Pending

/-- The token of what waits. -/
def token : Pending → Token
  | opened token | unary _ token | binary _ token => token

/-- Whether this is an infix operator. -/
def isBinary : Pending → Bool
  | binary _ _ => true
  | _ => false

end Pending

variable {place : Nat → Prop} {extra : Nat} {es : List Expr} {ps : List Pending}

/-- Stacks with a number of operands more than infix operators, all operands with their branches,
and what waits at places. -/
structure Balanced (place : Nat → Prop) (extra : Nat) (es : List Expr) (ps : List Pending) :
    Prop where
  /-- There are that many operands more than infix operators. -/
  count : es.length = ps.countP Pending.isBinary + extra
  /-- Every `?` in an operand has its branches. -/
  branched : ∀ e ∈ es, e.Branched
  /-- The tokens of what waits are at places. -/
  placed : ∀ p ∈ ps, place p.token.offset

namespace Balanced

/-- One more operand. -/
theorem push {e : Expr} (h : Balanced place extra es ps) (he : e.Branched) :
    Balanced place (extra + 1) (e :: es) ps := by
  refine ⟨congrArg Nat.succ h.count, fun e' he' => ?_, h.placed⟩
  rcases List.mem_cons.1 he' with rfl | he'
  · exact he
  · exact h.branched e' he'

/-- One operand less. -/
theorem pop {e : Expr} (h : Balanced place (extra + 1) (e :: es) ps) :
    e.Branched ∧ Balanced place extra es ps :=
  ⟨h.branched e List.mem_cons_self, Nat.succ.inj h.count,
    fun e' he' => h.branched e' (List.mem_cons_of_mem _ he'), h.placed⟩

/-- A parenthesis or prefix operator that waits counts for nothing. -/
theorem cons {p : Pending} (h : Balanced place extra es ps) (hp : p.isBinary = false)
    (hplace : place p.token.offset) : Balanced place extra es (p :: ps) := by
  refine ⟨?_, h.branched, fun q hq => ?_⟩
  · rw [List.countP_cons_of_neg (by simp [hp])]
    exact h.count
  · rcases List.mem_cons.1 hq with rfl | hq
    · exact hplace
    · exact h.placed q hq

/-- A parenthesis or prefix operator that no longer waits counts for nothing. -/
theorem tail {p : Pending} (h : Balanced place extra es (p :: ps)) (hp : p.isBinary = false) :
    Balanced place extra es ps := by
  refine ⟨?_, h.branched, fun q hq => h.placed q (List.mem_cons_of_mem _ hq)⟩
  rw [h.count, List.countP_cons_of_neg (by simp [hp])]

/-- An infix operator that waits counts for an operand. -/
theorem cons_binary {op : BinaryOp} {t : Token} (h : Balanced place (extra + 1) es ps)
    (hplace : place t.offset) : Balanced place extra es (.binary op t :: ps) := by
  refine ⟨?_, h.branched, fun q hq => ?_⟩
  · rw [List.countP_cons_of_pos rfl, h.count]
    omega
  · rcases List.mem_cons.1 hq with rfl | hq
    · exact hplace
    · exact h.placed q hq

/-- An infix operator that no longer waits counts for an operand. -/
theorem tail_binary {op : BinaryOp} {t : Token} (h : Balanced place extra es (.binary op t :: ps)) :
    Balanced place (extra + 1) es ps := by
  refine ⟨?_, h.branched, fun q hq => h.placed q (List.mem_cons_of_mem _ hq)⟩
  rw [h.count, List.countP_cons_of_pos rfl]
  omega

end Balanced

/-- An operand that is there is taken. -/
theorem pop_ends {allowed : Fault → Prop} (h : Balanced place (extra + 1) es ps) :
    Ends allowed (fun r => r.1.Branched ∧ Balanced place extra r.2 ps) (pop es) := by
  match es with
  | [] => cases h.count
  | e :: es => exact h.pop

/-- Applying a waiting operator keeps the stacks balanced, or a `?` lacks its branches. -/
theorem apply_ends {p : Pending} (h : Balanced place 1 es (p :: ps)) (hp : p.isOpen = false) :
    Ends (Fault.IsMalformed place SourceFault.IsSyntactic) (Balanced place 1 · ps)
      (apply es p) := by
  cases p with
  | opened => cases hp
  | unary op t =>
    refine (pop_ends (h.tail rfl)).bind fun r hr => ?_
    exact hr.2.push (e := .unary op r.1) hr.1
  | binary op t =>
    refine (pop_ends h.tail_binary).bind fun r hr => ?_
    refine (pop_ends hr.2).bind fun l hl => ?_
    show Ends _ _ (if op = .question ∧ !r.1.isBranches then _ else _)
    split
    · exact ⟨t.offset, _, rfl, h.placed _ List.mem_cons_self, trivial⟩
    · rename_i hbranch
      refine hl.2.push (e := .binary op l.1 r.1) ⟨hl.1, hr.1, fun hop => ?_⟩
      rw [hop] at hbranch
      simpa using hbranch

/-- Applying waiting operators keeps the stacks balanced, if no parenthesis is among them. -/
theorem applyWhile_ends {condition : Pending → Bool} (h : Balanced place 1 es ps)
    (hcondition : ∀ p ∈ ps, condition p = true → p.isOpen = false) :
    Ends (Fault.IsMalformed place SourceFault.IsSyntactic)
      (fun s => Balanced place 1 s.1 s.2 ∧ s.2 = ps.dropWhile condition)
      (applyWhile condition es ps) := by
  induction ps generalizing es with
  | nil => exact ⟨h, rfl⟩
  | cons p ps ih =>
    rw [applyWhile]
    split
    · rename_i hp
      rw [List.dropWhile_cons_of_pos hp]
      refine (apply_ends h (hcondition p List.mem_cons_self hp)).bind fun es' hes' => ?_
      exact ih hes' fun q hq => hcondition q (List.mem_cons_of_mem _ hq)
    · rename_i hp
      exact ⟨h, (List.dropWhile_cons_of_neg hp).symm⟩

/-- Applying the operators down to a parenthesis stops at it. -/
theorem exists_opened_of_dropWhile (h : ps.any (·.isOpen) = true) :
    ∃ t rest, ps.dropWhile (!·.isOpen) = .opened t :: rest := by
  induction ps with
  | nil => cases h
  | cons p ps ih =>
    cases p with
    | opened t => exact ⟨t, ps, rfl⟩
    | unary | binary => exact ih h

/-! ## Steps -/

namespace State

variable {s : State} {t : Token}

/-- What holds of a state between two tokens: there is one operand for every infix operator, and one
more after an operand. -/
def Balanced (place : Nat → Prop) (s : State) : Prop :=
  Parser.Balanced place (if s.expectsOperand then 0 else 1) s.operands s.pending

/-- Where an operand may start, none has been read since the last operator. -/
theorem checkOperand_ends (h : s.Balanced place) (ht : place t.offset) :
    Ends (Fault.IsMalformed place SourceFault.IsSyntactic) (fun _ => s.expectsOperand = true)
      (s.checkOperand t) := by
  obtain ⟨es, ps, expects⟩ := s
  cases expects with
  | true => cases es <;> exact rfl
  | false =>
    match es with
    | [] => cases h.count
    | e :: es => exact ⟨t.offset, _, rfl, ht, trivial⟩

/-- An operand where one may start. -/
theorem push_balanced {e : Expr} (h : s.Balanced place) (hexp : s.expectsOperand = true)
    (he : e.Branched) : (s.push e).Balanced place := by
  unfold Balanced at h
  rw [if_pos hexp] at h
  exact h.push he

/-- Reading a prefix operator keeps the balance. -/
theorem addUnary_ends (h : s.Balanced place) (ht : place t.offset) :
    Ends (Fault.IsMalformed place SourceFault.IsSyntactic) (Balanced place) (s.addUnary t) := by
  unfold addUnary unaryOp
  split
  · exact Parser.Balanced.cons h rfl ht
  · exact ⟨t.offset, _, rfl, ht, trivial⟩

/-- Reading an infix operator keeps the balance. -/
theorem addBinary_ends (h : s.Balanced place) (ht : place t.offset) :
    Ends (Fault.IsMalformed place SourceFault.IsSyntactic) (Balanced place) (s.addBinary t) := by
  unfold addBinary binaryOp
  split
  · exact ⟨t.offset, _, rfl, ht, trivial⟩
  rename_i hexp
  split
  · rename_i op _
    unfold Balanced at h
    rw [if_neg hexp] at h
    have hcloses : ∀ p ∈ s.pending, p.appliesBefore op = true → p.isOpen = false := by
      intro p _ hp
      cases p with
      | opened => cases hp
      | unary | binary => rfl
    exact (applyWhile_ends h hcloses).bind fun r hr => hr.1.cons_binary ht
  · exact ⟨t.offset, _, rfl, ht, trivial⟩

/-- An operand is missing at the place of what waits for it. -/
theorem missingOperand_isMalformed (hplaced : ∀ p ∈ s.pending, place p.token.offset)
    (hne : s.pending ≠ []) :
    Fault.IsMalformed place SourceFault.IsSyntactic (missingOperand s.pending) := by
  obtain ⟨es, ps, expects⟩ := s
  match ps with
  | [] => exact absurd rfl hne
  | .opened t :: ps => exact ⟨t.offset, _, rfl, hplaced _ List.mem_cons_self, trivial⟩
  | .unary _ t :: ps | .binary _ t :: ps =>
    exact ⟨t.offset, _, rfl, hplaced _ List.mem_cons_self, trivial⟩

/-- Reading a closing parenthesis keeps the balance. -/
theorem close_ends (h : s.Balanced place) (ht : place t.offset) :
    Ends (Fault.IsMalformed place SourceFault.IsSyntactic) (Balanced place) (s.close t) := by
  unfold close
  split
  · exact ⟨t.offset, _, rfl, ht, trivial⟩
  rename_i hopen
  simp only [Bool.not_eq_true, Bool.not_eq_false'] at hopen
  split
  · refine missingOperand_isMalformed h.placed fun hnil => ?_
    rw [hnil] at hopen
    cases hopen
  rename_i hexp
  unfold Balanced at h
  rw [if_neg hexp] at h
  have hstop : ∀ p ∈ s.pending, (!p.isOpen) = true → p.isOpen = false := fun p _ hp => by
    simpa using hp
  refine (applyWhile_ends h hstop).bind fun r hr => ?_
  refine (pop_ends hr.1).bind fun e he => ?_
  -- What is left starts with the parenthesis, which is taken off.
  obtain ⟨first, rest, hrest⟩ := exists_opened_of_dropWhile hopen
  rw [hrest] at hr
  have hbelow := he.2
  rw [hr.2] at hbelow
  show Parser.Balanced place 1 (.unary .group e.1 :: e.2) (r.2.drop 1)
  rw [hr.2]
  exact (hbelow.tail rfl).push he.1

/-- Reading a token keeps the balance, whatever the token is. -/
theorem step_ends {kind : SourceFault → Prop} {nested : Token → Except Fault Expr}
    (hkind : ∀ c, c.IsSyntactic → kind c) (h : s.Balanced place) (ht : place t.offset)
    (hliteral : t.kind = .literal →
      Ends (Fault.IsMalformed place kind) Expr.Branched (Expr.ofLiteral t))
    (hnested : t.kind = .interpolation →
      Ends (Fault.IsMalformed place kind) Expr.Branched (nested t)) :
    Ends (Fault.IsMalformed place kind) (Balanced place) (step nested s t) := by
  have weaken (fault : Fault) (hf : fault.IsMalformed place SourceFault.IsSyntactic) :
      fault.IsMalformed place kind := by
    obtain ⟨o, c, rfl, ho, hc⟩ := hf
    exact ⟨o, c, rfl, ho, hkind c hc⟩
  -- An operand starts here, if one is expected.
  have checked {f : Unit → Except Fault State}
      (hf : s.expectsOperand = true → Ends (Fault.IsMalformed place kind) (Balanced place) (f ())) :
      Ends (Fault.IsMalformed place kind) (Balanced place) (s.checkOperand t >>= f) :=
    ((checkOperand_ends h ht).mono weaken fun _ => id).bind fun _ hexp => hf hexp
  have binary := (addBinary_ends h ht).mono weaken fun _ => id
  unfold step
  split
  · exact h
  · exact checked fun _ => Parser.Balanced.cons h rfl ht
  · exact (close_ends h ht).mono weaken fun _ => id
  · rename_i hk
    exact checked fun hexp => (hnested hk).bind fun e he => push_balanced h hexp he
  · exact checked fun hexp => push_balanced h hexp trivial
  · exact checked fun hexp => push_balanced h hexp trivial
  · rename_i hk
    exact checked fun hexp => (hliteral hk).bind fun e he => push_balanced h hexp he
  · exact checked fun _ => (addUnary_ends h ht).mono weaken fun _ => id
  · split
    · exact (addUnary_ends h ht).mono weaken fun _ => id
    · exact binary
  all_goals exact binary

/-- The first parenthesis that is open waits, and if there is none, none waits. -/
theorem firstOpen?_cases (s : State) :
    (∃ t, s.firstOpen? = some t ∧ .opened t ∈ s.pending) ∨
      (s.firstOpen? = none ∧ ∀ p ∈ s.pending, p.isOpen = false) := by
  cases hfirst : s.firstOpen? with
  | some t =>
    obtain ⟨p, hp, hsome⟩ := List.exists_of_findSome?_eq_some hfirst
    cases p with
    | opened u =>
      obtain rfl := Option.some.inj hsome
      exact .inl ⟨u, rfl, List.mem_reverse.1 hp⟩
    | unary | binary => cases hsome
  | none =>
    refine .inr ⟨rfl, fun p hp => ?_⟩
    have hnone := List.findSome?_eq_none_iff.1 hfirst p (List.mem_reverse.2 hp)
    cases p with
    | opened => cases hnone
    | unary | binary => rfl

/-- The end of a source leaves one operand. -/
theorem finish_ends {offset : Nat} (h : s.Balanced place) (ho : place offset) :
    Ends (Fault.IsMalformed place SourceFault.IsSyntactic) Expr.Branched (s.finish offset) := by
  unfold finish
  rcases firstOpen?_cases s with ⟨t, hfirst, hmem⟩ | ⟨hfirst, hopen⟩
  · rw [hfirst]
    exact ⟨t.offset, _, rfl, h.placed _ hmem, trivial⟩
  · rw [hfirst]
    dsimp only
    split
    · show Fault.IsMalformed _ _ (if s.pending.isEmpty then _ else _)
      split
      · exact ⟨offset, _, rfl, ho, trivial⟩
      · rename_i hne
        exact missingOperand_isMalformed h.placed fun hnil => hne (List.isEmpty_iff.2 hnil)
    · rename_i hexp
      unfold Balanced at h
      rw [if_neg hexp] at h
      refine (applyWhile_ends h fun p hp _ => hopen p hp).bind fun r hr => ?_
      exact (pop_ends hr.1).bind fun e he => he.1

end State

/-! ## Runs -/

/-- What the parser relies on for the faults of its runs to be of some kinds and at places, with
`source` telling which tokens a source that starts at an offset can have. -/
structure Sound (place : Nat → Prop) (kind : SourceFault → Prop)
    (source : Nat → List Token → Prop) : Prop where
  /-- The faults of the order of tokens are of these kinds. -/
  syntactic : ∀ c, c.IsSyntactic → kind c
  /-- Sources start at places. -/
  start : ∀ {offset ts}, source offset ts → place offset
  /-- Tokens are at places. -/
  placed : ∀ {offset ts}, source offset ts → ∀ t ∈ ts, place t.offset
  /-- Literals are constants, or their faults are of these kinds. -/
  literal : ∀ {offset ts}, source offset ts → ∀ t ∈ ts, t.kind = .literal →
    Ends (Fault.IsMalformed place kind) (fun _ => True) (Expr.ofLiteral t)
  /-- The source of an interpolation is one of these sources, or its faults are of these kinds. -/
  nested : ∀ {offset ts}, source offset ts → ∀ t ∈ ts, t.kind = .interpolation →
    Ends (Fault.IsMalformed place kind) (source t.offset) (Token.scan t.offset t.src.toList)

variable {kind : SourceFault → Prop} {source : Nat → List Token → Prop}

/-- Reading tokens keeps the balance. -/
theorem foldlM_ends {nested : Token → Except Fault Expr} {s : State} {ts : List Token}
    (hkind : ∀ c, c.IsSyntactic → kind c) (h : s.Balanced place)
    (hplaced : ∀ t ∈ ts, place t.offset)
    (hliteral : ∀ t ∈ ts, t.kind = .literal →
      Ends (Fault.IsMalformed place kind) Expr.Branched (Expr.ofLiteral t))
    (hnested : ∀ t ∈ ts, t.kind = .interpolation →
      Ends (Fault.IsMalformed place kind) Expr.Branched (nested t)) :
    Ends (Fault.IsMalformed place kind) (State.Balanced place)
      (ts.foldlM (State.step nested) s) := by
  induction ts generalizing s with
  | nil => exact h
  | cons t ts ih =>
    rw [List.foldlM_cons]
    refine (State.step_ends hkind h (hplaced t List.mem_cons_self) (hliteral t List.mem_cons_self)
      (hnested t List.mem_cons_self)).bind fun s' hs' => ?_
    exact ih hs' (fun u hu => hplaced u (List.mem_cons_of_mem _ hu))
      (fun u hu => hliteral u (List.mem_cons_of_mem _ hu))
      (fun u hu => hnested u (List.mem_cons_of_mem _ hu))

/-- The parser starts in balance. -/
theorem State.balanced_start (place : Nat → Prop) : ({} : State).Balanced place :=
  ⟨rfl, fun _ he => absurd he List.not_mem_nil, fun _ hp => absurd hp List.not_mem_nil⟩

/-- The tokens of a sound source are read in balance, if its interpolations are parsed. -/
theorem Sound.foldlM_ends (hsound : Sound place kind source) {offset : Nat} {ts : List Token}
    (h : source offset ts) {nested : Token → Except Fault Expr}
    (hnested : ∀ t ∈ ts, t.kind = .interpolation →
      Ends (Fault.IsMalformed place kind) Expr.Branched (nested t)) :
    Ends (Fault.IsMalformed place kind) (State.Balanced place)
      (ts.foldlM (State.step nested) {}) := by
  refine Parser.foldlM_ends hsound.syntactic (State.balanced_start place) (hsound.placed h)
    (fun t ht hk => ?_) hnested
  cases hlit : Expr.ofLiteral t with
  | error fault => exact (hsound.literal h t ht hk).of_error hlit
  | ok e =>
    obtain ⟨v, rfl⟩ := Token.ofLiteral_eq_literal hlit
    trivial

/-- A run gives a tree with all its branches or a fault of its tokens. -/
theorem run_ends (hsound : Sound place kind source) {levels offset : Nat} {ts : List Token}
    (h : source offset ts) :
    Ends (Fault.IsMalformed place kind) Expr.Branched (run levels offset ts) := by
  induction levels generalizing offset ts with
  | zero => exact ⟨offset, _, rfl, hsound.start h, hsound.syntactic _ trivial⟩
  | succ levels ih =>
    rw [run_succ]
    refine (hsound.foldlM_ends h fun t ht hk => ?_).bind fun s hs => ?_
    · exact (hsound.nested h t ht hk).bind fun us hus => ih hus
    · refine (State.finish_ends hs (hsound.start h)).mono (fun fault hf => ?_) fun _ => id
      obtain ⟨o, c, rfl, ho, hc⟩ := hf
      exact ⟨o, c, rfl, ho, hsound.syntactic c hc⟩

/-- An interpolation of a sound source gives a tree with all its branches or a fault in it. -/
theorem inner_ends (hsound : Sound place kind source) {levels offset : Nat} {ts : List Token}
    (h : source offset ts) (t : Token) (ht : t ∈ ts) (hk : t.kind = .interpolation) :
    Ends (Fault.IsMalformed place kind) Expr.Branched (inner levels t) :=
  (hsound.nested h t ht hk).bind fun _ hus => run_ends hsound hus

end Parser

/-! ## Evaluation -/

namespace Expr

/-- Whether a `:` stands in a tree outside of a ternary. -/
def HasStrayColon : Expr → Prop
  | literal _ | reference _ | property _ => False
  | unary _ e => e.HasStrayColon
  | binary .question c (binary .colon a b) =>
    c.HasStrayColon ∨ a.HasStrayColon ∨ b.HasStrayColon
  | binary .colon _ _ => True
  | binary _ l r => l.HasStrayColon ∨ r.HasStrayColon

/-- The faults that a tree can have when it is evaluated: a scope that does not exist or is too far
up, for one of its references, and a stray `:`. -/
def Raises (e : Expr) (fault : Fault) : Prop :=
  (fault = .strayColon ∧ e.HasStrayColon) ∨
    ∃ n ∈ e.names, fault = .noEnclosingScope n.text ∨
      (fault = .deepVariable n.text ∧ maxDepth < n.sigils)

/-- A reference is looked up, or it has no scope. -/
theorem lookup_ends (m : Model) (data : Value) (n : ScopedName) :
    Ends (reference n).Raises (fun _ => True) (m.lookup data n) := by
  have climb (hops : Nat) (v : Value) :
      Ends (reference n).Raises (fun _ => True) (m.climb n hops v) := by
    induction hops generalizing v with
    | zero => trivial
    | succ hops ih =>
      unfold Model.climb
      split
      · exact ih _
      · exact .inr ⟨n, List.mem_cons_self, .inl rfl⟩
  unfold Model.lookup
  split
  · trivial
  split
  · rename_i hdeep
    exact .inr ⟨n, List.mem_cons_self, .inr ⟨rfl, hdeep⟩⟩
  · exact (climb _ data).bind fun _ _ => trivial

/-- A tree with all its branches is evaluated, or it has no scope for a reference or a stray `:`. -/
theorem eval_ends (m : Model) (data row : Value) {e : Expr} (h : e.Branched) :
    Ends e.Raises (fun _ => True) (e.eval m data row) := by
  -- The faults of a part are faults of the whole, if its stray colons and references are there too.
  have part {e part : Expr} (hstray : part.HasStrayColon → e.HasStrayColon)
      (hnames : ∀ n ∈ part.names, n ∈ e.names) (fault : Fault) (hf : part.Raises fault) :
      e.Raises fault := by
    rcases hf with ⟨rfl, hs⟩ | ⟨n, hn, hf⟩
    · exact .inl ⟨rfl, hstray hs⟩
    · exact .inr ⟨n, hnames n hn, hf⟩
  fun_induction Expr.eval m data row e with
  | case1 => trivial
  | case2 n => exact lookup_ends m data n
  | case3 => trivial
  | case4 op e ih => exact ((ih h).mono (part id fun _ => id) fun _ => id).bind fun _ _ => trivial
  | case5 c a b ihc iha ihb =>
    obtain ⟨hc, ⟨ha, hb, _⟩, _⟩ := h
    refine ((ihc hc).mono (part Or.inl fun n hn => ?_) fun _ => id).bind fun v _ => ?_
    · exact List.mem_append_left _ hn
    split
    · exact (iha ha).mono
        (part (Or.inr ∘ Or.inl) fun n hn => List.mem_append_right _ (List.mem_append_left _ hn))
        fun _ => id
    · exact (ihb hb).mono
        (part (Or.inr ∘ Or.inr) fun n hn => List.mem_append_right _ (List.mem_append_right _ hn))
        fun _ => id
  | case6 l r hne =>
    -- A `?` has its branches.
    have hr := h.2.2 rfl
    unfold isBranches at hr
    split at hr
    · exact absurd rfl (hne _ _)
    · cases hr
  | case7 => exact .inl ⟨rfl, trivial⟩
  | case8 l r ihl ihr =>
    refine ((ihl h.1).mono (part Or.inl fun n => List.mem_append_left _) fun _ => id).bind
      fun v _ => ?_
    split
    · exact (ihr h.2.1).mono (part Or.inr fun n => List.mem_append_right _) fun _ => id
    · trivial
  | case9 l r ihl ihr =>
    refine ((ihl h.1).mono (part Or.inl fun n => List.mem_append_left _) fun _ => id).bind
      fun v _ => ?_
    split
    · trivial
    · exact (ihr h.2.1).mono (part Or.inr fun n => List.mem_append_right _) fun _ => id
  | case10 op l r hbranches hquestion hcolon hand hor ihl ihr =>
    -- The operators left are those that are applied to two values.
    have hstray : l.HasStrayColon ∨ r.HasStrayColon → (binary op l r).HasStrayColon := by
      cases op <;> first | exact id | exact absurd rfl hquestion | exact absurd rfl hcolon
    have happly (a b : Value) : ∃ v, op.apply m a b = .ok v := by
      cases op <;> first | exact ⟨_, rfl⟩ | contradiction
    refine ((ihl h.1).mono (part (hstray ∘ .inl) fun n => List.mem_append_left _)
      fun _ => id).bind fun a _ => ?_
    refine ((ihr h.2.1).mono (part (hstray ∘ .inr) fun n => List.mem_append_right _)
      fun _ => id).bind fun b _ => ?_
    obtain ⟨v, hv⟩ := happly a b
    rw [hv]
    trivial

end Expr

/-! ## Any tokens, and tokens that are read -/

/-- A source is read wherever it is said to stand, or its fault is one of taking it apart. -/
theorem Token.scan_ends_anywhere (offset : Nat) (cs : List Char) :
    Ends (Fault.IsMalformed (fun _ => True) SourceFault.IsLexical)
      (fun ts => ∀ t ∈ ts, t.Regular) (scan offset cs) := by
  -- It stands there in a source that begins with as many blanks.
  have hblanks : ∀ n, Lexeme.bytes (List.replicate n ' ') = n := fun n => by
    induction n with
    | zero => rfl
    | succ n ih =>
      rw [List.replicate_succ, Lexeme.bytes_cons, ih]
      exact Nat.add_comm 1 n
  have hsource : (String.ofList (List.replicate offset ' ' ++ cs)).toList =
      List.replicate offset ' ' ++ cs ++ [] := by rw [String.toList_ofList, List.append_nil]
  have h := scan_ends hsource (hblanks offset).symm
  cases hscan : scan offset cs with
  | ok ts => exact fun t ht => regular_of_mem_scan hscan ht
  | error fault =>
    obtain ⟨o, c, rfl, _, hc⟩ := h.of_error hscan
    exact ⟨o, c, rfl, trivial, hc⟩

/-- A literal token is a constant or no number. -/
theorem Token.ofLiteral_ends (t : Token) :
    Ends (· = .malformed t.offset (.invalidNumber t.src)) (fun _ => True) (Expr.ofLiteral t) := by
  unfold Expr.ofLiteral
  split
  · trivial
  · trivial
  · trivial
  · split
    · trivial
    · split
      · trivial
      · rfl

namespace Parser

/-- Whatever the tokens are, no fault is one of the stacks. -/
theorem sound_any : Sound (fun _ => True) (fun c => ¬ c.IsInternal) (fun _ _ => True) where
  syntactic c hc := by cases c <;> first | exact id | exact hc.elim
  start _ := trivial
  placed _ _ _ := trivial
  literal _ t _ _ := t.ofLiteral_ends.mono (fun _ hf => ⟨_, _, hf, trivial, id⟩) fun _ => id
  nested _ t _ _ := by
    refine (Token.scan_ends_anywhere _ _).mono (fun fault hf => ?_) fun _ _ => trivial
    obtain ⟨o, c, rfl, _, hc⟩ := hf
    exact ⟨o, c, rfl, trivial, by cases c <;> first | exact id | exact hc.elim⟩

/-- If the tokens have texts of their classes, no fault is one of a literal either. -/
theorem sound_regular :
    Sound (fun _ => True) (fun c => ¬ c.IsInternal ∧ ∀ src, c ≠ .invalidNumber src)
      (fun _ ts => ∀ t ∈ ts, t.Regular) where
  syntactic c hc := by
    refine ⟨(sound_any.syntactic c hc), ?_⟩
    rintro src rfl
    exact hc
  start _ := trivial
  placed _ _ _ := trivial
  literal h t ht hk := by
    obtain ⟨e, he⟩ := (h t ht).readable hk
    rw [he]
    trivial
  nested _ t _ _ := by
    refine (Token.scan_ends_anywhere _ _).mono (fun fault hf => ?_) fun _ => id
    obtain ⟨o, c, rfl, _, hc⟩ := hf
    refine ⟨o, c, rfl, trivial, by cases c <;> first | exact id | exact hc.elim, ?_⟩
    rintro src rfl
    exact hc

/-- For any tokens whatsoever, a run of the parser fails only by what its tokens are, after each
token its stacks are in balance, with a parenthesis under the operators that are applied when one
closes, and the trees that it returns lack no branch when they are evaluated. For tokens that are
read from a source or a template, all literals among them are constants, and no fault says of one
that it is none. -/
theorem parse_balanced (ts : List Token) :
    Ends (Fault.IsMalformed (fun _ => True) fun c => ¬ c.IsInternal)
        (fun e => ∀ m data row, Ends e.Raises (fun _ => True) (e.eval m data row))
        (Expr.parse ts) ∧
      (∀ levels before after s, ts = before ++ after →
        before.foldlM (State.step (inner levels)) {} = .ok s →
          s.Balanced (fun _ => True) ∧
          (s.pending.any (·.isOpen) = true →
            ∀ r, applyWhile (!·.isOpen) s.operands s.pending = .ok r →
              ∃ t rest, r.2 = .opened t :: rest)) ∧
      ∀ offset cs, Token.scan offset cs = .ok ts ∨ Template.tokens offset cs = .ok ts →
        (∀ t ∈ ts, t.kind = .literal → ∃ e, Expr.ofLiteral t = .ok e) ∧
        ∀ o src, Expr.parse ts ≠ .error (.malformed o (.invalidNumber src)) := by
  refine ⟨?_, ?_, ?_⟩
  · exact (run_ends sound_any trivial).mono (fun _ => id)
      fun e he m data row => Expr.eval_ends m data row he
  · rintro levels before after s - hs
    have hinner := @inner_ends _ _ _ sound_any levels 0 before trivial
    have hbalanced := @Sound.foldlM_ends _ _ _ sound_any 0 before trivial _ hinner
    refine ⟨hbalanced.of_ok hs, fun hopen ⟨es, ps⟩ hr => ?_⟩
    rw [applyWhile_pending hr]
    exact exists_opened_of_dropWhile hopen
  · rintro offset cs hread
    have hregular : ∀ t ∈ ts, t.Regular := fun t ht =>
      hread.elim (Token.regular_of_mem_scan · ht) (Token.regular_of_mem_template · ht)
    refine ⟨fun t ht hk => (hregular t ht).readable hk, fun o src herror => ?_⟩
    obtain ⟨_, c, he, _, hc⟩ := (run_ends sound_regular hregular).of_error herror
    cases he
    exact hc.2 src rfl

/-- `(a)` is read in balance, also between its name and the parenthesis that closes. -/
theorem parse_balanced_group :
    let ts : List Token := [⟨.openParen, "(", 0⟩, ⟨.reference, "a", 1⟩, ⟨.closeParen, ")", 2⟩]
    let s : State := ⟨[.reference (.ofString "a")], [.opened ⟨.openParen, "(", 0⟩], false⟩
    (ts.take 2).foldlM (State.step (inner 1)) {} = .ok s ∧ s.Balanced (fun _ => True) ∧
      s.pending.any (·.isOpen) = true ∧
      (∃ t rest, s.pending = .opened t :: rest) ∧
      Token.scan 0 ['(', 'a', ')'] = .ok ts ∧
      ∀ o src, Expr.parse ts ≠ .error (.malformed o (.invalidNumber src)) := by
  intro ts s
  have hscan : Token.scan 0 ['(', 'a', ')'] = .ok ts := by decide +kernel
  have hstate : (ts.take 2).foldlM (State.step (inner 1)) {} = .ok s := rfl
  obtain ⟨_, hstates, hread⟩ := parse_balanced ts
  obtain ⟨hbalanced, hopened⟩ := hstates 1 (ts.take 2) (ts.drop 2) s rfl hstate
  exact ⟨hstate, hbalanced, rfl, hopened rfl (s.operands, s.pending) rfl, hscan,
    (hread 0 _ (.inl hscan)).2⟩

end Parser

end LiveScope
