import LiveScope.Expr.Parser
import LiveScope.World.Dispatch

/-!
# Bound names, properties and formulas

Reading, writing and subscribing by scoped names, from the binding of an object. What is subscribed
is registered with that binding under a number that releases it. While an operation tells a
listener, it holds the object it started from, the owner of the name and the values involved.
-/

namespace LiveScope

variable {γ : Type}

/-- Writes to the property that a name resolves to from an object, when that is done. -/
structure Setter where
  /-- The object whose scope the name is resolved in; it is not kept alive. -/
  scope : ObjectId
  /-- The name. -/
  name : ScopedName
deriving DecidableEq, Repr

/-- A formula that was bound. -/
structure BoundFormula where
  /-- The number of the registration; a formula without fields never changes and has none. -/
  id : Option Nat
  /-- The value when it was bound. -/
  value : Value
  /-- The fields. -/
  fields : List ScopedName

namespace Model

/-- The value of a name. -/
def getValue (o : ObjectId) (n : ScopedName) : Edit Value := do
  let owner ← resolve o n
  return (← get).get owner n.name

/-- Connects a handler to each of several names, those already connected being `made`. If a name
has no owner, all are disconnected again. -/
def connectFields (o : ObjectId) (handler : ScopedName → Handler) :
    List ScopedName → List (ObjectId × SubscriptionId) → Edit (List (ObjectId × SubscriptionId))
  | [], made => return made
  | n :: names, made => do
    let owner ← tryCatch (resolve o n) fun fault => do
      modify (·.disconnectAll made)
      throw fault
    let id ← modifyGet (·.connect owner n.name (handler n))
    connectFields o handler names (made ++ [(owner, id)])

/-- Subscribes to several names at once. Without names there is nothing to register. -/
def bindFields (o : ObjectId) (names : List ScopedName) (handler : ScopedName → Handler) :
    Edit (Option Nat) := do
  if names.isEmpty then return none
  let made ← connectFields o handler names []
  return some (← modifyGet (·.register o made none))

/-- Subscribes a function to a property. -/
def bindProperty (o : ObjectId) (n : ScopedName) (callback : CallbackId) : Edit Nat := do
  let owner ← resolve o n
  let id ← modifyGet (·.connect owner n.name (.report ⟨callback, none⟩))
  modifyGet (·.register o [(owner, id)] none)

/-- Sets up a deep watch of a property and registers it. Gives the number of the registration, the
owner of the property and its value. -/
def bindDeep (o : ObjectId) (n : ScopedName) (callback : CallbackId) :
    Edit (Nat × ObjectId × Value) := do
  let owner ← resolve o n
  let v := (← get).get owner n.name
  let deep := (← get).deeps.size
  modify fun m => { m with deeps := m.deeps.push ⟨owner, n.name, callback, none⟩ }
  retarget deep v
  let id ← modifyGet (·.connect owner n.name (.follow deep))
  let id ← modifyGet (·.register o [(owner, id)] (some deep))
  return (id, owner, v)

end Model

namespace Scope

open Act

/-- Writes to the property that a name stands for. -/
def setValue (listen : Listener γ) (o : ObjectId) (n : ScopedName) (v : Value) : Act γ Unit :=
  holding [.object o] do
    let owner ← edit (Model.resolve o n)
    Proxy.set listen owner n.name v

/-- Deletes the property that a name stands for. -/
def deleteValue (listen : Listener γ) (o : ObjectId) (n : ScopedName) : Act γ Unit :=
  holding [.object o] do
    let owner ← edit (Model.resolve o n)
    Proxy.delete listen owner n.name

/-- Subscribes a function to a property and everything inside its value. It is told the value at
once, when the property is replaced and when anything inside changes. -/
def bindObject (listen : Listener γ) (o : ObjectId) (n : ScopedName) (callback : CallbackId) :
    Act γ Nat := do
  let (id, owner, v) ← edit (Model.bindDeep o n callback)
  holding (.object o :: .object owner :: v.holds) (run (listen (.value callback v)))
  return id

/-- Evaluates an expression in the scope of an object, subscribes to its fields, and tells the
value now and after every change. -/
def bindFormula (listen : Listener γ) (o : ObjectId) (e : Expr) (row : Value) (sink : Sink) :
    Act γ BoundFormula := do
  let value ← e.eval (← model) (.object o) row
  let fields := e.fields
  let formula : Formula := ⟨e, o, row, sink⟩
  let id ← edit (Model.bindFields o fields fun n => .recompute n.text formula)
  holding (.object o :: row.holds ++ value.holds) (run (listen (sink.notice value)))
  return ⟨id, value, fields⟩

/-- Binds the source of an expression. -/
def bindExpr (listen : Listener γ) (o : ObjectId) (src : String) (row : Value) (sink : Sink) :
    Act γ BoundFormula := do
  bindFormula listen o (← Expr.ofSource src) row sink

/-- Binds a template. -/
def bindTemplate (listen : Listener γ) (o : ObjectId) (src : String) (row : Value) (sink : Sink) :
    Act γ BoundFormula := do
  bindFormula listen o (← Expr.ofTemplate src) row sink

end Scope

/-- Writes through a setter, if its object is still alive. -/
def Setter.set (listen : Listener γ) (s : Setter) (v : Value) : Act γ Unit := do
  if (← Act.model).isAlive s.scope then Scope.setValue listen s.scope s.name v
  else throw .setterOutlived

end LiveScope
