/-!
# Faults

What can go wrong, as causes. `Fault.message` gives the text shown to people: the kind of the
fault, which decides how the text begins, and the detail.
-/

namespace LiveScope

/-- The limit on nesting shared by scope chains, watched objects, snapshots and interpolations. -/
def maxDepth : Nat := 100

/-- The kinds of values that diagnostics tell apart. -/
inductive Kind where
  | null
  | bool
  | number
  | text
  | list
  | map
  | function
deriving DecidableEq, Repr

/-- The name of a kind in diagnostics. -/
def Kind.label : Kind → String
  | null => "null"
  | bool => "bool"
  | number => "number"
  | text => "string"
  | list => "list"
  | map => "object"
  | function => "function"

/-- What is wrong with the source of an expression or template. -/
inductive SourceFault where
  /-- No token starts here; the text is the start of what was found. -/
  | unexpectedInput (snippet : String)
  /-- A backslash ends a template. -/
  | malformedEscape
  /-- An interpolation is not closed. -/
  | unterminatedInterpolation
  /-- Interpolations are nested beyond the limit. -/
  | nestedInterpolations
  /-- An operand follows an operand, shown as the tree read so far. -/
  | unexpectedAfter (src operand : String)
  /-- An infix operator has no left operand. -/
  | missingLeft (src : String)
  /-- An operator has no right operand. -/
  | missingRight (src : String)
  /-- A parenthesis closes none. -/
  | unexpectedClose
  /-- Nothing stands between two parentheses. -/
  | emptyParentheses
  /-- A parenthesis is not closed. -/
  | unbalanced
  /-- There is no operand at all. -/
  | emptyExpression
  /-- A `?` whose right operand is no `:`. -/
  | missingBranch
  /-- A token is used as a prefix operator and is none. -/
  | notPrefixOperator (src : String)
  /-- A token is used as an infix operator and is none. -/
  | notInfixOperator (src : String)
  /-- A literal token is no number. -/
  | invalidNumber (src : String)
  /-- An operator finds no operand waiting. -/
  | noOperandWaiting
  /-- An operand is missing though no operator waits for it. -/
  | noOperatorWaiting
  /-- An open parenthesis is applied as if it were an operator. -/
  | parenthesisApplied
deriving DecidableEq, Repr

/-- The cause of a failure. -/
inductive Fault where
  /-- The source is malformed at a byte offset. -/
  | malformed (offset : Nat) (cause : SourceFault)
  /-- Only maps and lists can be bound. -/
  | notBindable (kind : Kind)
  /-- Plain data that is neither a map nor a list. -/
  | notContainer (kind : Kind)
  /-- The object has a binding already. -/
  | alreadyBound
  /-- No enclosing scope to resolve a name in. -/
  | noParentScope (name : String)
  /-- A setter whose object is gone. -/
  | setterOutlived
  /-- A text that is no subscription id. -/
  | malformedSubscription (text : String)
  /-- The member at a key cannot be proxied. -/
  | member (key : String) (cause : Fault)
  /-- A list cannot have this length. -/
  | invalidLength (text : String)
  /-- A key that is no index of a list. -/
  | notIndex (key : String)
  /-- A key that cannot be deleted from a list. -/
  | undeletable (key : String)
  /-- Appending to a map. -/
  | pushOnMap
  /-- Taking the last element of a map. -/
  | popOnMap
  /-- A spec row that is no JSON object, shown as JSON. -/
  | rowNotObject (json : String)
  /-- An object made its own parent scope. -/
  | ownParent
  /-- A name with more sigils than the limit; the text is what is left of it. -/
  | scopeChain (name : String)
  /-- Objects nested beyond the limit under a watch. -/
  | nestedObjects
  /-- Data nested beyond the limit in a snapshot. -/
  | nestedData
  /-- A variable with more sigils than the limit. -/
  | deepVariable (src : String)
  /-- A variable that reaches above the outermost scope. -/
  | noEnclosingScope (src : String)
  /-- An operator that decides which operands to evaluate, applied to values. -/
  | notEager (symbol : String)
  /-- A `?` evaluated without branches. -/
  | noBranches
  /-- A `:` evaluated outside a ternary. -/
  | strayColon
  /-- No callback of this name. -/
  | unknownCallback (name : String)
  /-- No dialog of this name. -/
  | unknownDialog (name : String)
  /-- There is no view switch. -/
  | noViewSwitch
  /-- A function failed, with its own words. -/
  | consumer (detail : String)
  /-- A dialog failed. -/
  | dialogFailed (name : String) (cause : Fault)
  /-- The view switch failed. -/
  | viewFailed (name : String) (cause : Fault)
deriving DecidableEq, Repr

/-- How the text of a fault begins. -/
inductive FaultKind where
  | malformed (offset : Nat)
  | binding
  | recursion
  | evaluation
  | unknownCallback
  | unknownDialog
  | noViewSwitch
  | serialization
  | consumer
deriving DecidableEq, Repr

/-- A text in plain double quotes. -/
def inQuotes (s : String) : String := "\"" ++ s ++ "\""

namespace SourceFault

/-- The description of what is wrong. -/
def detail : SourceFault → String
  | unexpectedInput snippet => "unexpected input " ++ inQuotes snippet
  | malformedEscape => "malformed escape"
  | unterminatedInterpolation => "unterminated \"\x7b\x7b\""
  | nestedInterpolations => "interpolations nested deeper than " ++ maxDepth.repr
  | unexpectedAfter src operand => "unexpected " ++ inQuotes src ++ " after " ++ operand
  | missingLeft src => inQuotes src ++ " is missing its left operand"
  | missingRight src => inQuotes src ++ " is missing its right operand"
  | unexpectedClose => "unexpected \")\""
  | emptyParentheses => "empty parentheses"
  | unbalanced | parenthesisApplied => "unbalanced parentheses"
  | emptyExpression | noOperandWaiting | noOperatorWaiting => "empty expression"
  | missingBranch => "\"?\" is missing its \":\" branch"
  | notPrefixOperator src => inQuotes src ++ " is not a prefix operator"
  | notInfixOperator src => inQuotes src ++ " is not an infix operator"
  | invalidNumber src => "invalid number " ++ inQuotes src

end SourceFault

namespace FaultKind

/-- The text of a fault of this kind with a given detail. -/
def describe (kind : FaultKind) (detail : String) : String :=
  match kind with
  | malformed offset => "syntax error at byte " ++ offset.repr ++ ": " ++ detail
  | binding => "binding error: " ++ detail
  | recursion => "recursion guard: " ++ detail
  | evaluation => "evaluation error: " ++ detail
  | unknownCallback => "unknown callback " ++ inQuotes detail
  | unknownDialog => "unknown dialog " ++ inQuotes detail
  | noViewSwitch => "no view switch installed"
  | serialization => "serialization error: " ++ detail
  | consumer => detail

/-- Whether faults of this kind come from reading source. -/
def isMalformed : FaultKind → Bool
  | malformed _ => true
  | _ => false

end FaultKind

namespace Fault

/-- The kind of a fault. -/
def kind : Fault → FaultKind
  | malformed offset _ => .malformed offset
  | notBindable _ | notContainer _ | alreadyBound | noParentScope _ | setterOutlived
  | malformedSubscription _ | member _ _ | invalidLength _ | notIndex _ | undeletable _
  | pushOnMap | popOnMap | rowNotObject _ => .binding
  | ownParent | scopeChain _ | nestedObjects | nestedData | deepVariable _ => .recursion
  | noEnclosingScope _ | notEager _ | noBranches | strayColon => .evaluation
  | unknownCallback _ => .unknownCallback
  | unknownDialog _ => .unknownDialog
  | noViewSwitch => .noViewSwitch
  | consumer _ | dialogFailed _ _ | viewFailed _ _ => .consumer

/-- The detail of a fault, without what its kind adds. -/
def detail : Fault → String
  | malformed _ cause => cause.detail
  | notBindable kind => "cannot bind a " ++ kind.label ++ " value"
  | notContainer kind => "cannot bind a " ++ kind.label ++ " value, expected a map or list"
  | alreadyBound => "object already has a binding"
  | noParentScope name => "no parent scope to resolve " ++ inQuotes name
  | setterOutlived => "setter outlived its binding"
  | malformedSubscription text => "malformed subscription id " ++ inQuotes text
  | member key cause => "member " ++ inQuotes key ++ ": " ++ cause.kind.describe cause.detail
  | invalidLength text => "invalid list length " ++ text
  | notIndex key => inQuotes key ++ " is not a list index"
  | undeletable key => "cannot delete " ++ inQuotes key ++ " from a list"
  | pushOnMap => "push on a map object"
  | popOnMap => "pop on a map object"
  | rowNotObject json => "spec row must be a JSON object, got " ++ json
  | ownParent => "an object cannot be its own parent scope"
  | scopeChain name =>
    "scope chain deeper than " ++ maxDepth.repr ++ " resolving " ++ inQuotes name
  | nestedObjects => "nested objects deeper than " ++ maxDepth.repr ++ " (cyclic model?)"
  | nestedData => "data nested deeper than " ++ maxDepth.repr ++ " levels (cyclic model?)"
  | deepVariable src => inQuotes src ++ " is deeper than " ++ maxDepth.repr ++ " scopes"
  | noEnclosingScope src => "no enclosing scope for " ++ inQuotes src
  | notEager symbol => inQuotes symbol ++ " cannot be applied eagerly"
  | noBranches => "\"?\" without a \":\" branch"
  | strayColon => "\":\" outside a ternary"
  | unknownCallback name | unknownDialog name => name
  | noViewSwitch => ""
  | consumer detail => detail
  | dialogFailed name cause =>
    "dialog " ++ inQuotes name ++ " failed: " ++ cause.kind.describe cause.detail
  | viewFailed name cause =>
    "switching to view " ++ inQuotes name ++ ": " ++ cause.kind.describe cause.detail

/-- The text of a fault. -/
def message (fault : Fault) : String := fault.kind.describe fault.detail

end Fault

end LiveScope
