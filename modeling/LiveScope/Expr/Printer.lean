import LiveScope.Expr.Basic
import LiveScope.Number
import LiveScope.Text.Quoted

/-!
# Showing expressions

The form of an expression in diagnostics: every infix operator in parentheses, groups left out.
-/

namespace LiveScope

/-- A constant as shown: texts quoted, numbers as templates show them. -/
def Literal.display : Literal → String
  | null => "null"
  | bool b => if b then "true" else "false"
  | number x => Number.text x
  | text s => Text.quoted s

/-- An expression as shown. -/
def Expr.display : Expr → String
  | literal v => v.display
  | reference n => n.text
  | property name => "@" ++ name
  | unary op e => op.symbol ++ e.display
  | binary op l r => "(" ++ l.display ++ " " ++ op.symbol ++ " " ++ r.display ++ ")"

end LiveScope
