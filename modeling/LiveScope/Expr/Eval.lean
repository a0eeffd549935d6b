import LiveScope.Expr.Fields
import LiveScope.Model.Snapshot

/-!
# Evaluation

The value of an expression in a model, given the value whose scope it is evaluated in and the spec
row. The ternary and the connectives evaluate only the operands they need; a connective gives one of
its operands and not a truth value.
-/

namespace LiveScope

/-- The value of a constant. -/
def Literal.toValue : Literal → Value
  | null => .null
  | bool b => .bool b
  | number x => .number x
  | text s => .text s

/-- The value of a prefix operator. -/
def UnaryOp.apply (op : UnaryOp) (v : Value) : Value :=
  match op with
  | group => v
  | not => .bool !v.truthy
  | negate => .number (-v.toNumber)
  | plus => .number v.toNumber

/-- How two values are ordered: texts as texts, all else as numbers, of which NaN has no order. -/
def Value.order? (a b : Value) : Option Ordering :=
  match a, b with
  | text s, text t => some (compare s t)
  | _, _ =>
    let x := a.toNumber
    let y := b.toNumber
    if x < y then some .lt else if x == y then some .eq else if y < x then some .gt else none

/-- The sum of two values: the concatenation, if one of them is a text. -/
def Model.sum (m : Model) (a b : Value) : Value :=
  match a, b with
  | .text _, _ | _, .text _ => .text (m.text a ++ m.text b)
  | _, _ => .number (a.toNumber + b.toNumber)

/-- The value of an infix operator that evaluates both its operands. -/
def BinaryOp.apply (op : BinaryOp) (m : Model) (a b : Value) : Except Fault Value :=
  match op with
  | eq => .ok (.bool (a.looseEq b))
  | ne => .ok (.bool !a.looseEq b)
  | gt => .ok (.bool (a.order? b == some .gt))
  | lt => .ok (.bool (a.order? b == some .lt))
  | ge => .ok (.bool (a.order? b == some .gt || a.order? b == some .eq))
  | le => .ok (.bool (a.order? b == some .lt || a.order? b == some .eq))
  | add => .ok (m.sum a b)
  | sub => .ok (.number (a.toNumber - b.toNumber))
  | mul => .ok (.number (a.toNumber * b.toNumber))
  | div => .ok (.number (a.toNumber / b.toNumber))
  | rem => .ok (.number (Binary.floatRemainder a.toNumber b.toNumber))
  | concat => .ok (.text (m.text a ++ m.text b))
  | question | colon | and | or => .error (.notEager op.symbol)

namespace Expr

/-- The value of an expression in the scope of `data`, with the members of the spec row `row`. -/
def eval (m : Model) (data row : Value) : Expr → Except Fault Value
  | literal v => .ok v.toValue
  | reference name => m.lookup data name
  | property name => .ok (m.memberOf row name)
  | unary op e => do return op.apply (← e.eval m data row)
  | binary .question c (binary .colon a b) => do
    if (← c.eval m data row).truthy then a.eval m data row else b.eval m data row
  | binary .question _ _ => .error .noBranches
  | binary .colon _ _ => .error .strayColon
  | binary .and l r => do
    let v ← l.eval m data row
    if v.truthy then r.eval m data row else return v
  | binary .or l r => do
    let v ← l.eval m data row
    if v.truthy then return v else r.eval m data row
  | binary op l r => do
    let a ← l.eval m data row
    let b ← r.eval m data row
    op.apply m a b

end Expr

end LiveScope
