import LiveScope.Expr.Printer
import LiveScope.World.Controller
import LiveScope.World.Row

/-!
# Diagnostics

One-line descriptions of the parts of a model, and the texts of warnings.
-/

namespace LiveScope

/-- A record with named fields on one line. -/
def describeRecord (name : String) (fields : List (String × String)) : String :=
  name ++ " \x7b " ++ ", ".intercalate (fields.map fun (field, text) => field ++ ": " ++ text) ++
    " \x7d"

/-- Texts as a list on one line. -/
def describeTexts (texts : List String) : String :=
  "[" ++ ", ".intercalate (texts.map Text.quoted) ++ "]"

/-- A truth value. -/
def describeBool (b : Bool) : String := if b then "true" else "false"

namespace Model

/-- An object as its kind, its size and whether it has a binding. -/
def describe (m : Model) (o : ObjectId) : String :=
  describeRecord "Object"
    [("kind", Text.quoted (if (m.store o).isList then "list" else "map")),
      ("len", (m.store o).size.repr), ("bound", describeBool (m.isBound o))]

/-- The binding of an object as what is subscribed to it. -/
def describeBinding (m : Model) (o : ObjectId) : String :=
  describeRecord "Binding"
    [("object", m.describe o), ("handlers", (m.handlerCount o).repr),
      ("binds", (m.bindCount o).repr), ("has_parent", describeBool (m.parent? o).isSome)]

/-- The proxy of an object. -/
def describeProxy (m : Model) (o : ObjectId) : String := "Proxy(" ++ m.describe o ++ ")"

end Model

/-- A controller as its data and what it knows. -/
def Controller.describe (c : Controller) (m : Model) : String :=
  describeRecord "Controller"
    [("data", m.describeProxy c.data), ("callbacks", describeTexts (sortedTexts c.callbacks)),
      ("dialogs", describeTexts (sortedTexts c.dialogs)),
      ("view_switch", describeBool c.hasViewSwitch)]

/-- A spec row as the names of its bound members and how many of them change. -/
def BoundRow.describe (row : BoundRow) : String :=
  describeRecord "BoundRow"
    [("members", describeTexts row.values.keys), ("live", row.ids.length.repr)]

namespace Warning

/-- Whether the failure is one of the client's own functions. -/
def isError : Warning → Bool
  | callback _ => true
  | _ => false

/-- The headline of a warning. -/
def message : Warning → String
  | reevaluation _ _ _ => "re-evaluation failed"
  | replacement _ _ => "not watching replacement value"
  | nested _ _ => "not watching nested object"
  | member _ _ => "cannot bind spec row member"
  | callback _ => "callback failed"

/-- What a warning is about. -/
def fields : Warning → List (String × String)
  | reevaluation field fault expr =>
    [("err", fault.message), ("expr", expr.display), ("field", field)]
  | replacement key fault | nested key fault => [("err", fault.message), ("key", key)]
  | member name fault => [("err", fault.message), ("member", name)]
  | callback name => [("callback", name)]

end Warning

end LiveScope
