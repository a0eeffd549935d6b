import LiveScope.Expr.Lexer
import LiveScope.Expr.Printer

/-!
# Parsing

`Expr.parse` builds the tree of a list of tokens in one scan from left to right. Complete operands
wait on one stack, operators and open parentheses on another. An infix operator first applies
every waiting operator that binds at least as tightly, prefix operators always, so that the tree
comes out by precedence. Parentheses and interpolations become groups. A `?` is applied once its
right side is complete, which must then be a `:`.
-/

namespace LiveScope

namespace Expr

/-- The constant in a quoted form, which loses its first and last byte; a backslash stands for
what it protects. -/
def unquote (src : List Char) : String :=
  let inner := src.drop 1
  match inner.getLast? with
  | some c => if c.utf8Size = 1 then String.ofList (unescape inner.dropLast) else ""
  | none => ""
where
  /-- Replaces every backslash and the character after it. -/
  unescape : List Char → List Char
    | [] => []
    | ['\\'] => []
    | '\\' :: c :: cs => Template.unescape c :: unescape cs
    | c :: cs => c :: unescape cs

/-- The tree of a literal token. -/
def ofLiteral (token : Token) : Except Fault Expr :=
  match token.src with
  | "true" => .ok (literal (.bool true))
  | "false" => .ok (literal (.bool false))
  | "null" => .ok (literal .null)
  | src =>
    if src.toList.head?.any Lexeme.isQuote then .ok (literal (.text (unquote src.toList)))
    else match Decimal.read? src with
      | some x => .ok (literal (.number x))
      | none => .error (.malformed token.offset (.invalidNumber src))

/-- The tree of a member of the spec row, written with its mark. -/
def ofProperty (src : String) : Expr :=
  property (String.ofList (src.toList.dropWhile (· == '@')))

end Expr

namespace Parser

/-- What waits for operands: an open parenthesis or an operator, with its token. -/
inductive Pending where
  | opened (token : Token)
  | unary (op : UnaryOp) (token : Token)
  | binary (op : BinaryOp) (token : Token)
deriving DecidableEq, Repr

namespace Pending

/-- Whether this is an open parenthesis. -/
def isOpen : Pending → Bool
  | opened _ => true
  | _ => false

/-- Whether this is applied before a following infix operator. -/
def appliesBefore (next : BinaryOp) : Pending → Bool
  | opened _ => false
  | unary _ _ => true
  | binary op _ => op.bindsBefore next

end Pending

/-- The parser's two stacks, their tops first, and whether an operand has to come next. -/
structure State where
  /-- Complete operands. -/
  operands : List Expr := []
  /-- Waiting operators and open parentheses. -/
  pending : List Pending := []
  /-- Whether an operand has to come next. -/
  expectsOperand : Bool := true

/-- A fault at a token. -/
def fault {α : Type} (token : Token) (cause : SourceFault) : Except Fault α :=
  .error (.malformed token.offset cause)

/-- The prefix operator of a token. -/
def unaryOp (token : Token) : Except Fault UnaryOp :=
  match UnaryOp.ofSymbol? token.src with
  | some op => .ok op
  | none => fault token (.notPrefixOperator token.src)

/-- The infix operator of a token. -/
def binaryOp (token : Token) : Except Fault BinaryOp :=
  match BinaryOp.ofSymbol? token.src with
  | some op => .ok op
  | none => fault token (.notInfixOperator token.src)

/-- Takes the top operand. -/
def pop : List Expr → Except Fault (Expr × List Expr)
  | e :: operands => .ok (e, operands)
  | [] => .error (.malformed 0 .noOperandWaiting)

/-- Applies one waiting operator to the operands it covers. -/
def apply (operands : List Expr) : Pending → Except Fault (List Expr)
  | .opened token => fault token .parenthesisApplied
  | .unary op _ => do
    let (e, operands) ← pop operands
    return .unary op e :: operands
  | .binary op token => do
    let (r, operands) ← pop operands
    let (l, operands) ← pop operands
    if op = .question ∧ !r.isBranches then fault token .missingBranch
    else return .binary op l r :: operands

/-- Applies waiting operators from the top while a condition on them holds. -/
def applyWhile (condition : Pending → Bool) (operands : List Expr) :
    List Pending → Except Fault (List Expr × List Pending)
  | [] => .ok (operands, [])
  | p :: pending =>
    if condition p then do applyWhile condition (← apply operands p) pending
    else .ok (operands, p :: pending)

/-- The fault of an operand missing where the innermost waiting operator or parenthesis needs
one. -/
def missingOperand : List Pending → Fault
  | .opened token :: _ => .malformed token.offset .emptyParentheses
  | .unary _ token :: _ | .binary _ token :: _ => .malformed token.offset (.missingRight token.src)
  | [] => .malformed 0 .noOperatorWaiting

namespace State

/-- An operand may start at a token only if no complete operand waits. -/
def checkOperand (s : State) (token : Token) : Except Fault Unit :=
  match s.operands with
  | last :: _ =>
    if s.expectsOperand then .ok () else fault token (.unexpectedAfter token.src last.display)
  | [] => .ok ()

/-- The state with one more complete operand. -/
def push (s : State) (e : Expr) : State :=
  { s with operands := e :: s.operands, expectsOperand := false }

/-- Reads a prefix operator. -/
def addUnary (s : State) (token : Token) : Except Fault State := do
  let op ← unaryOp token
  return { s with pending := .unary op token :: s.pending }

/-- Reads an infix operator. -/
def addBinary (s : State) (token : Token) : Except Fault State :=
  if s.expectsOperand then fault token (.missingLeft token.src)
  else do
    let op ← binaryOp token
    let (operands, pending) ← applyWhile (·.appliesBefore op) s.operands s.pending
    return ⟨operands, .binary op token :: pending, true⟩

/-- Reads a closing parenthesis. -/
def close (s : State) (token : Token) : Except Fault State :=
  if !s.pending.any (·.isOpen) then fault token .unexpectedClose
  else if s.expectsOperand then .error (missingOperand s.pending)
  else do
    let (operands, pending) ← applyWhile (!·.isOpen) s.operands s.pending
    let (inner, operands) ← pop operands
    return ⟨.unary .group inner :: operands, pending.drop 1, false⟩

/-- Reads one token; `nested` parses the source of an interpolation. -/
def step (nested : Token → Except Fault Expr) (s : State) (token : Token) : Except Fault State :=
  match token.kind with
  | .space => .ok s
  | .openParen => do
    s.checkOperand token
    return { s with pending := .opened token :: s.pending }
  | .closeParen => s.close token
  | .interpolation => do
    s.checkOperand token
    return s.push (.unary .group (← nested token))
  | .reference => do
    s.checkOperand token
    return s.push (.reference (.ofString token.src))
  | .property => do
    s.checkOperand token
    return s.push (Expr.ofProperty token.src)
  | .literal => do
    s.checkOperand token
    return s.push (← Expr.ofLiteral token)
  | .negation => do
    s.checkOperand token
    s.addUnary token
  | .additive => if s.expectsOperand then s.addUnary token else s.addBinary token
  | .comparison | .multiplicative | .question | .colon | .concat => s.addBinary token

/-- The first parenthesis that was opened and is not closed. -/
def firstOpen? (s : State) : Option Token :=
  s.pending.reverse.findSome? fun
    | .opened token => some token
    | _ => none

/-- The tree of a source that starts at `offset`, when all its tokens are read. -/
def finish (s : State) (offset : Nat) : Except Fault Expr :=
  match s.firstOpen? with
  | some token => fault token .unbalanced
  | none =>
    if s.expectsOperand then
      .error (if s.pending.isEmpty then .malformed offset .emptyExpression
        else missingOperand s.pending)
    else do
      let (operands, _) ← applyWhile (fun _ => true) s.operands s.pending
      return (← pop operands).1

end State

/-- Parses tokens of a source that starts at `offset`, with `levels` levels of interpolations left,
the source itself included. -/
def run : Nat → Nat → List Token → Except Fault Expr
  | 0, offset, _ => .error (.malformed offset .nestedInterpolations)
  | levels + 1, offset, tokens => do
    let nested (token : Token) : Except Fault Expr := do
      run levels token.offset (← Token.scan token.offset token.src.toList)
    (← tokens.foldlM (State.step nested) {}).finish offset

end Parser

namespace Expr

/-- The tree of a list of tokens. -/
def parse (tokens : List Token) : Except Fault Expr := Parser.run (maxDepth + 1) 0 tokens

/-- The tree of the source of an expression. -/
def ofSource (src : String) : Except Fault Expr := do parse (← Token.scan 0 src.toList)

/-- The tree of a template. -/
def ofTemplate (src : String) : Except Fault Expr := do parse (← Template.tokens 0 src.toList)

end Expr

end LiveScope
