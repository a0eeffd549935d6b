import LiveScope.CommandLine
import LiveScope.Main
import LiveScope.Proofs.Decimal.Bits
import LiveScope.Proofs.Decimal.Digits
import LiveScope.Proofs.Decimal.Integers
import LiveScope.Proofs.Decimal.Nearest
import LiveScope.Proofs.Decimal.Rereading
import LiveScope.Proofs.Decimal.Shortest
import LiveScope.Proofs.Deep.Admission
import LiveScope.Proofs.Deep.Bystanders
import LiveScope.Proofs.Deep.Following
import LiveScope.Proofs.Deep.Grafting
import LiveScope.Proofs.Deep.Guards
import LiveScope.Proofs.Deep.Members
import LiveScope.Proofs.Deep.Mirroring
import LiveScope.Proofs.Deep.Patching
import LiveScope.Proofs.Deep.Rebuilding
import LiveScope.Proofs.Deep.Refusals
import LiveScope.Proofs.Deep.Roots
import LiveScope.Proofs.Deep.Tending
import LiveScope.Proofs.Deep.Touching
import LiveScope.Proofs.Deep.Upkeep
import LiveScope.Proofs.Deep.Writing
import LiveScope.Proofs.Expr.Balance
import LiveScope.Proofs.Expr.Bytes
import LiveScope.Proofs.Expr.Classes
import LiveScope.Proofs.Expr.Display
import LiveScope.Proofs.Expr.Evaluation
import LiveScope.Proofs.Expr.Grammar
import LiveScope.Proofs.Expr.Legible
import LiveScope.Proofs.Expr.Lossless
import LiveScope.Proofs.Expr.Nesting
import LiveScope.Proofs.Expr.Numerals
import LiveScope.Proofs.Expr.Offsets
import LiveScope.Proofs.Expr.Parsing
import LiveScope.Proofs.Expr.Precedence
import LiveScope.Proofs.Expr.Scanning
import LiveScope.Proofs.Expr.Spans
import LiveScope.Proofs.Expr.Stacks
import LiveScope.Proofs.Formula.Attachment
import LiveScope.Proofs.Formula.Dependence
import LiveScope.Proofs.Formula.Fields
import LiveScope.Proofs.Formula.Fresh
import LiveScope.Proofs.Formula.Heeding
import LiveScope.Proofs.Formula.Places
import LiveScope.Proofs.Formula.Scope
import LiveScope.Proofs.Formula.Tracking
import LiveScope.Proofs.Model.Altering
import LiveScope.Proofs.Model.Attaching
import LiveScope.Proofs.Model.Climbing
import LiveScope.Proofs.Model.Depth
import LiveScope.Proofs.Model.Documents
import LiveScope.Proofs.Model.Edits
import LiveScope.Proofs.Model.Mending
import LiveScope.Proofs.Model.Nodes
import LiveScope.Proofs.Model.Orderly
import LiveScope.Proofs.Model.Refusing
import LiveScope.Proofs.Model.Renewal
import LiveScope.Proofs.Model.Scopes
import LiveScope.Proofs.Model.Subscribing
import LiveScope.Proofs.Model.Tables
import LiveScope.Proofs.Model.Targets
import LiveScope.Proofs.Model.Trees
import LiveScope.Proofs.Model.Watching
import LiveScope.Proofs.Release.Exact
import LiveScope.Proofs.Release.Ledger
import LiveScope.Proofs.Release.Ownership
import LiveScope.Proofs.Release.Recording
import LiveScope.Proofs.Release.Subscribing
import LiveScope.Proofs.Release.Undoing
import LiveScope.Proofs.Row.Accounting
import LiveScope.Proofs.Row.Attempts
import LiveScope.Proofs.Row.Binding
import LiveScope.Proofs.Row.Demands
import LiveScope.Proofs.Row.Leaving
import LiveScope.Proofs.Row.Members
import LiveScope.Proofs.Row.Nodes
import LiveScope.Proofs.Row.Numbers
import LiveScope.Proofs.Row.Rollback
import LiveScope.Proofs.Spelling.Identifiers
import LiveScope.Proofs.Spelling.Lists
import LiveScope.Proofs.Spelling.Mending
import LiveScope.Proofs.Spelling.Models
import LiveScope.Proofs.Spelling.Telling
import LiveScope.Proofs.Spelling.Trees
import LiveScope.Proofs.Store.Shapes
import LiveScope.Proofs.Template.Constants
import LiveScope.Proofs.Template.Embedding
import LiveScope.Proofs.Template.Escaping
import LiveScope.Proofs.Template.Meaning
import LiveScope.Proofs.Template.Quoting
import LiveScope.Proofs.World.Announcing
import LiveScope.Proofs.World.Binding
import LiveScope.Proofs.World.Chronicle
import LiveScope.Proofs.World.Contents
import LiveScope.Proofs.World.Delivering
import LiveScope.Proofs.World.Dispatching
import LiveScope.Proofs.World.Driving
import LiveScope.Proofs.World.Hearing
import LiveScope.Proofs.World.Journals
import LiveScope.Proofs.World.Latest
import LiveScope.Proofs.World.Mutation
import LiveScope.Proofs.World.Reentrance
import LiveScope.Proofs.World.Requests
import LiveScope.Proofs.World.Wiring
import LiveScope.Session.Run
