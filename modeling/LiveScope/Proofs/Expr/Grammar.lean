import LiveScope.Expr.Parser

/-!
# The grammar of expressions

Which lists of tokens are expressions, and which trees they are read as, without reference to the
parser's stacks.

`Phrase` is the grammar: a group is a sequence of operands with infix operators between them, an
operand is a leaf, an interpolation or a group in parentheses after any number of prefix operators.
`Paired` is the one condition that reaches across a group: after every `?` the next of its ternary
operators is a `:`. `Spells` relates a tree to the tokens that it is written as, from left to right,
and `WellGrouped` says that its infix nodes are nested by precedence. A list of tokens can be the
spelling of many trees, of which at most one is well grouped.
-/

namespace LiveScope

namespace Token

/-- Whether an operator token has one of the texts of its class. -/
def WellSpelled (t : Token) : Prop :=
  match t.kind with
  | .additive => t.src ∈ ["+", "-"]
  | .comparison => t.src ∈ ["==", "!=", ">=", "<=", "&&", "||", ">", "<"]
  | .multiplicative => t.src ∈ ["*", "/", "%"]
  | .negation => t.src = "!"
  | .openParen => t.src = "("
  | .closeParen => t.src = ")"
  | .question => t.src = "?"
  | .colon => t.src = ":"
  | .concat => t.src = ".."
  | .space | .reference | .property | .literal | .interpolation => True

instance (t : Token) : Decidable t.WellSpelled := by
  unfold WellSpelled
  cases t.kind <;> infer_instance

/-- The operator that a token is before an operand. -/
def unaryOp? (t : Token) : Option UnaryOp :=
  match t.kind with
  | .negation | .additive => (UnaryOp.ofSymbol? t.src).filter (· != .group)
  | _ => none

/-- The operator that a token is after an operand. -/
def binaryOp? (t : Token) : Option BinaryOp :=
  match t.kind with
  | .additive | .comparison | .multiplicative | .question | .colon | .concat =>
    BinaryOp.ofSymbol? t.src
  | _ => none

/-- The tree of a reference, of a member of the spec row or of a literal. -/
def leaf? (t : Token) : Option Expr :=
  match t.kind with
  | .reference => some (.reference (.ofString t.src))
  | .property => some (Expr.ofProperty t.src)
  | .literal => (Expr.ofLiteral t).toOption
  | _ => none

/-- Whether a literal token denotes a constant. -/
def Readable (t : Token) : Prop := ∃ e, Expr.ofLiteral t = .ok e

/-- Tokens without the blanks between them. -/
def visible (ts : List Token) : List Token := ts.filter (·.kind != .space)

end Token

namespace BinaryOp

/-- Whether the operator is one of the two of a ternary. -/
def isTernary : BinaryOp → Bool
  | question | colon => true
  | _ => false

/-- The operators of a group, in order, if every `?` has its `:`: the next of the two ternary
operators after it is a `:`. -/
def Paired (ops : List BinaryOp) : Prop :=
  ∀ before after, ops = before ++ question :: after → after.find? isTernary = some colon

end BinaryOp

/-- The two forms of a phrase: an operand, or the sequence that makes up a group, with its infix
operators in order. -/
inductive Form where
  | operand
  | sequence (ops : List BinaryOp)

/-- The grammar. The literals allowed are those that `literal` holds of; an interpolation is allowed
if its source is read as tokens that make up a group. -/
inductive Phrase (literal : Token → Prop) : Form → List Token → Prop
  | leaf {t : Token} (kind : t.kind = .reference ∨ t.kind = .property ∨ t.kind = .literal)
      (allowed : t.kind = .literal → literal t) : Phrase literal .operand [t]
  | interpolation {t : Token} {ts : List Token} {ops : List BinaryOp}
      (kind : t.kind = .interpolation) (scan : Token.scan t.offset t.src.toList = .ok ts)
      (body : Phrase literal (.sequence ops) (Token.visible ts)) (paired : BinaryOp.Paired ops) :
      Phrase literal .operand [t]
  | group {first last : Token} {ts : List Token} {ops : List BinaryOp}
      (opens : first.kind = .openParen) (closes : last.kind = .closeParen)
      (body : Phrase literal (.sequence ops) ts) (paired : BinaryOp.Paired ops) :
      Phrase literal .operand (first :: ts ++ [last])
  | unary {t : Token} {ts : List Token} {op : UnaryOp} (op_eq : t.unaryOp? = some op)
      (operand : Phrase literal .operand ts) : Phrase literal .operand (t :: ts)
  | single {ts : List Token} (operand : Phrase literal .operand ts) :
      Phrase literal (.sequence []) ts
  | binary {t : Token} {ts us : List Token} {op : BinaryOp} {ops : List BinaryOp}
      (operand : Phrase literal .operand ts) (op_eq : t.binaryOp? = some op)
      (rest : Phrase literal (.sequence ops) us) :
      Phrase literal (.sequence (op :: ops)) (ts ++ t :: us)

/-- Tokens that make up a whole group. -/
def Phrase.Group (literal : Token → Prop) (ts : List Token) : Prop :=
  ∃ ops, Phrase literal (.sequence ops) ts ∧ BinaryOp.Paired ops

/-- A tree and the tokens it is written as. There is one group node for every pair of parentheses
and for every interpolation. -/
inductive Spells : Expr → List Token → Prop
  | leaf {t : Token} {e : Expr} (tree : t.leaf? = some e) : Spells e [t]
  | interpolation {t : Token} {ts : List Token} {e : Expr} (kind : t.kind = .interpolation)
      (scan : Token.scan t.offset t.src.toList = .ok ts) (body : Spells e (Token.visible ts)) :
      Spells (.unary .group e) [t]
  | group {first last : Token} {ts : List Token} {e : Expr} (opens : first.kind = .openParen)
      (closes : last.kind = .closeParen) (body : Spells e ts) :
      Spells (.unary .group e) (first :: ts ++ [last])
  | unary {t : Token} {ts : List Token} {op : UnaryOp} {e : Expr} (op_eq : t.unaryOp? = some op)
      (operand : Spells e ts) : Spells (.unary op e) (t :: ts)
  | binary {t : Token} {ts us : List Token} {op : BinaryOp} {l r : Expr} (left : Spells l ts)
      (op_eq : t.binaryOp? = some op) (right : Spells r us) :
      Spells (.binary op l r) (ts ++ t :: us)

namespace Expr

/-- The operator at the root of an infix node. -/
def root? : Expr → Option BinaryOp
  | binary op _ _ => some op
  | _ => none

/-- A left operand without parentheses binds at least as tightly as its operator, and more tightly
if that groups to the right. -/
def LeftFits (op : BinaryOp) (l : Expr) : Prop :=
  ∀ inner, l.root? = some inner →
    if op.isRightAssoc then op.precedence < inner.precedence else op.precedence ≤ inner.precedence

/-- A right operand without parentheses binds more tightly than its operator, and at least as
tightly if that groups to the right. -/
def RightFits (op : BinaryOp) (r : Expr) : Prop :=
  ∀ inner, r.root? = some inner →
    if op.isRightAssoc then op.precedence ≤ inner.precedence else op.precedence < inner.precedence

/-- Whether the tree is nested by precedence: operands without parentheses fit their operators, and
a prefix operator has no infix operand. -/
def WellGrouped : Expr → Prop
  | literal _ | reference _ | property _ => True
  | unary op e => e.WellGrouped ∧ (op ≠ .group → e.root? = none)
  | binary op l r => l.WellGrouped ∧ r.WellGrouped ∧ LeftFits op l ∧ RightFits op r

/-- Whether the right operand of every `?` is a pair of branches. -/
def Branched : Expr → Prop
  | literal _ | reference _ | property _ => True
  | unary _ e => e.Branched
  | binary op l r => l.Branched ∧ r.Branched ∧ (op = .question → r.isBranches)

/-- The infix operators of a tree outside of its groups and prefix operators, in order. -/
def operators : Expr → List BinaryOp
  | binary op l r => l.operators ++ op :: r.operators
  | _ => []

end Expr

end LiveScope
