import LiveScope.Expr.Eval
import LiveScope.Proofs.Outcome

/-!
# What the value of an expression depends on

An expression sees a model only through the values of its references and of its row's members, and
through the texts of these values. `Expr.evalBy` takes the values of references as given;
`Expr.eval_eq_evalBy` says that evaluation is this with the look-up of references, and
`Expr.evalBy_congr` that models that agree on what is seen give the same value.
-/

namespace LiveScope

namespace Expr

/-- The references in an expression, from left to right. -/
def names : Expr → List ScopedName
  | literal _ | property _ => []
  | reference n => [n]
  | unary _ e => e.names
  | binary _ l r => l.names ++ r.names

/-- The value of an expression when `read` gives the values of its references. -/
def evalBy (m : Model) (read : ScopedName → Except Fault Value) (row : Value) :
    Expr → Except Fault Value
  | literal v => .ok v.toValue
  | reference name => read name
  | property name => .ok (m.memberOf row name)
  | unary op e => do return op.apply (← e.evalBy m read row)
  | binary .question c (binary .colon a b) => do
    if (← c.evalBy m read row).truthy then a.evalBy m read row else b.evalBy m read row
  | binary .question _ _ => .error .noBranches
  | binary .colon _ _ => .error .strayColon
  | binary .and l r => do
    let v ← l.evalBy m read row
    if v.truthy then r.evalBy m read row else return v
  | binary .or l r => do
    let v ← l.evalBy m read row
    if v.truthy then return v else r.evalBy m read row
  | binary op l r => do
    let a ← l.evalBy m read row
    let b ← r.evalBy m read row
    op.apply m a b

/-- Evaluation reads references by looking them up. -/
theorem eval_eq_evalBy (m : Model) (data row : Value) (e : Expr) :
    e.eval m data row = e.evalBy m (m.lookup data) row := by
  fun_induction Expr.eval m data row e <;> simp_all [evalBy]

/-- Two outcomes are the same, and a value in them is one that `seen` holds of. -/
def Agrees (seen : Value → Prop) (x x' : Except Fault Value) : Prop :=
  x' = x ∧ ∀ v, x = .ok v → seen v

namespace Agrees

variable {seen : Value → Prop} {x x' : Except Fault Value}

/-- A value that is seen agrees with itself. -/
theorem ok {v : Value} (h : seen v) : Agrees seen (.ok v) (.ok v) := by
  refine ⟨rfl, fun u hu => ?_⟩
  obtain rfl := Except.ok.inj hu
  exact h

/-- A failure agrees with itself. -/
theorem error (fault : Fault) : Agrees seen (.error fault) (.error fault) :=
  ⟨rfl, fun _ h => by cases h⟩

/-- What is done with values that agree agrees if it does for every value that is seen. -/
theorem bind {f f' : Value → Except Fault Value} (h : Agrees seen x x')
    (hf : ∀ v, seen v → Agrees seen (f v) (f' v)) : Agrees seen (x >>= f) (x' >>= f') := by
  obtain ⟨rfl, hx⟩ := h
  cases x' with
  | ok v => exact hf v (hx v rfl)
  | error fault => exact error fault

end Agrees

variable {m m' : Model} {seen : Value → Prop}

/-- The value of an infix operator depends on the texts of its operands alone, and is no object. -/
theorem agrees_apply (hplain : ∀ v : Value, v.object? = none → seen v)
    (htext : ∀ v, seen v → m'.text v = m.text v) (op : BinaryOp) {a b : Value} (ha : seen a)
    (hb : seen b) : Agrees seen (op.apply m a b) (op.apply m' a b) := by
  have hsum : m'.sum a b = m.sum a b := by
    unfold Model.sum
    rw [htext a ha, htext b hb]
  have hplainSum : (m.sum a b).object? = none := by
    unfold Model.sum
    split <;> rfl
  cases op with
  | add =>
    dsimp only [BinaryOp.apply]
    rw [hsum]
    exact .ok (hplain _ hplainSum)
  | concat =>
    dsimp only [BinaryOp.apply]
    rw [htext a ha, htext b hb]
    exact .ok (hplain _ rfl)
  | question | colon | and | or => exact .error _
  | eq | ne | gt | lt | ge | le | sub | mul | div | rem => exact .ok (hplain _ rfl)

/-- Models give an expression the same value if its references and the members of the row have the
same values in both, and these have the same texts. `seen` is what can come up on the way: all that
is no object, and what is read. -/
theorem evalBy_congr (seen : Value → Prop) {read read' : ScopedName → Except Fault Value}
    {row : Value}
    (hplain : ∀ v : Value, v.object? = none → seen v)
    (htext : ∀ v, seen v → m'.text v = m.text v)
    (hrow : ∀ name, m'.memberOf row name = m.memberOf row name ∧ seen (m.memberOf row name))
    (e : Expr) (hread : ∀ n ∈ e.names, Agrees seen (read n) (read' n)) :
    Agrees seen (e.evalBy m read row) (e.evalBy m' read' row) := by
  -- The operands agree, and so the same of them are looked at and the same is made of these.
  fun_induction Expr.evalBy m read row e with
  | case1 v =>
    refine .ok (hplain _ ?_)
    cases v <;> rfl
  | case2 name => exact hread name (List.mem_singleton.2 rfl)
  | case3 name =>
    obtain ⟨hmember, hseen⟩ := hrow name
    rw [evalBy, hmember]
    exact .ok hseen
  | case4 op e ih =>
    rw [evalBy]
    refine (ih hread).bind fun v hv => .ok ?_
    cases op with
    | group => exact hv
    | not | negate | plus => exact hplain _ rfl
  | case5 c a b ihc iha ihb =>
    have hbranches : ∀ n ∈ a.names ++ b.names, Agrees seen (read n) (read' n) := fun n hn =>
      hread n (List.mem_append_right _ hn)
    rw [evalBy]
    refine (ihc fun n hn => hread n (List.mem_append_left _ hn)).bind fun v _ => ?_
    split
    · exact iha fun n hn => hbranches n (List.mem_append_left _ hn)
    · exact ihb fun n hn => hbranches n (List.mem_append_right _ hn)
  | case6 l r h =>
    rw [evalBy]
    · exact .error _
    · exact h
  | case7 => exact .error _
  | case8 l r ihl ihr =>
    rw [evalBy]
    refine (ihl fun n hn => hread n (List.mem_append_left _ hn)).bind fun v hv => ?_
    split
    · exact ihr fun n hn => hread n (List.mem_append_right _ hn)
    · exact .ok hv
  | case9 l r ihl ihr =>
    rw [evalBy]
    refine (ihl fun n hn => hread n (List.mem_append_left _ hn)).bind fun v hv => ?_
    split
    · exact .ok hv
    · exact ihr fun n hn => hread n (List.mem_append_right _ hn)
  | case10 op l r h1 h2 h3 h4 h5 ihl ihr =>
    rw [evalBy]
    · refine (ihl fun n hn => hread n (List.mem_append_left _ hn)).bind fun a ha => ?_
      refine (ihr fun n hn => hread n (List.mem_append_right _ hn)).bind fun b hb => ?_
      exact agrees_apply hplain htext op ha hb
    all_goals assumption

end Expr

end LiveScope
