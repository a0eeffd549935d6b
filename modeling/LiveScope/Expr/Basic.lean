import LiveScope.Dict
import LiveScope.Fault

/-!
# Expressions

The trees of the expression language: literals, scope references, members of the spec row, and
operators. A scope reference is a name with a number of sigils `$` before it, which say how far up
the chain of scopes it is looked up.
-/

namespace LiveScope

/-- A name and the number of sigils `$` before it. -/
structure ScopedName where
  /-- The number of sigils. -/
  sigils : Nat
  /-- The name after them. -/
  name : String
deriving DecidableEq, Repr

namespace ScopedName

/-- Splits a text into its leading sigils and the rest. -/
def ofString (s : String) : ScopedName :=
  ⟨(s.toList.takeWhile (· == '$')).length, String.ofList (s.toList.dropWhile (· == '$'))⟩

/-- The name as written. -/
def text (n : ScopedName) : String := String.ofList (List.replicate n.sigils '$') ++ n.name

end ScopedName

/-- A constant. -/
inductive Literal where
  | null
  | bool (value : Bool)
  | number (value : Float)
  | text (value : String)
deriving Repr

/-- The operators before an operand, grouping among them. -/
inductive UnaryOp where
  /-- Parentheses or an interpolation: the operand's own value. -/
  | group
  | not
  | negate
  | plus
deriving DecidableEq, Repr

/-- The operators between two operands. -/
inductive BinaryOp where
  | question
  | colon
  | or
  | and
  | eq
  | ne
  | gt
  | lt
  | ge
  | le
  | add
  | sub
  | concat
  | mul
  | div
  | rem
deriving DecidableEq, Repr

namespace UnaryOp

/-- The operator as written; a group is not written. -/
def symbol : UnaryOp → String
  | group => ""
  | not => "!"
  | negate => "-"
  | plus => "+"

/-- The operator that a prefix token stands for. -/
def ofSymbol? : String → Option UnaryOp
  | "(" => some group
  | "!" => some not
  | "-" => some negate
  | "+" => some plus
  | _ => none

end UnaryOp

namespace BinaryOp

/-- The operator as written. -/
def symbol : BinaryOp → String
  | question => "?"
  | colon => ":"
  | or => "||"
  | and => "&&"
  | eq => "=="
  | ne => "!="
  | gt => ">"
  | lt => "<"
  | ge => ">="
  | le => "<="
  | add => "+"
  | sub => "-"
  | concat => ".."
  | mul => "*"
  | div => "/"
  | rem => "%"

/-- All operators. -/
def all : List BinaryOp :=
  [question, colon, or, and, eq, ne, gt, lt, ge, le, add, sub, concat, mul, div, rem]

/-- The operator that an infix token stands for. -/
def ofSymbol? (s : String) : Option BinaryOp := all.find? fun op => op.symbol == s

/-- How tightly the operator binds. -/
def precedence : BinaryOp → Nat
  | question | colon => 1
  | or => 2
  | and => 3
  | eq | ne | gt | lt | ge | le => 4
  | add | sub => 5
  | concat => 6
  | mul | div | rem => 7

/-- The ternary operators group to the right, all others to the left. -/
def isRightAssoc : BinaryOp → Bool
  | question | colon => true
  | _ => false

/-- Whether a pending operator is applied before a following one: it binds tighter, or equally
and to the left. -/
def bindsBefore (pending next : BinaryOp) : Bool :=
  next.precedence < pending.precedence ||
    (next.precedence == pending.precedence && !pending.isRightAssoc)

end BinaryOp

/-- An expression. -/
inductive Expr where
  /-- A constant. -/
  | literal (value : Literal)
  /-- A scope reference. -/
  | reference (name : ScopedName)
  /-- A member of the spec row, written `@name`. -/
  | property (name : String)
  /-- A prefix operator or group. -/
  | unary (op : UnaryOp) (operand : Expr)
  /-- An infix operator. The right operand of `?` is a `:` holding the two branches. -/
  | binary (op : BinaryOp) (left right : Expr)
deriving Repr

namespace Expr

instance : Inhabited Expr := ⟨literal .null⟩

/-- Whether the tree is a pair of branches. -/
def isBranches : Expr → Bool
  | binary .colon _ _ => true
  | _ => false

end Expr

end LiveScope
