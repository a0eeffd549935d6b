import LiveScope.Expr.Basic
import LiveScope.Model.Release

/-!
# Models and their clients

A `World` is a model together with the state of the client whose functions are told of changes. The
client is a `Listener`: given a notice it changes the world in any way it likes, which includes
further writes to the model. What the library does is defined for every listener, so a function that
is told of a change and changes something in turn needs no recursion here.
-/

namespace LiveScope

/-- A failure that is noted and not passed on. -/
inductive Warning where
  /-- A formula could not be evaluated after a change of a field. -/
  | reevaluation (field : String) (fault : Fault) (expr : Expr)
  /-- The new value of a watched property is nested too deep to watch. -/
  | replacement (key : String) (fault : Fault)
  /-- A new object inside a watched value is nested too deep to watch. -/
  | nested (key : String) (fault : Fault)
  /-- A member of a spec row could not be bound. -/
  | member (name : String) (fault : Fault)
  /-- A callback of a controller failed. -/
  | callback (name : String)

/-- What a client is told. -/
inductive Notice where
  /-- A function is told a value. -/
  | value (callback : CallbackId) (v : Value)
  /-- A function is told the value of a field or member. -/
  | member (callback : CallbackId) (name : String) (v : Value)
  /-- A function is told of a change of an object. -/
  | change (callback : CallbackId) (key : String) (v : Value) (object : ObjectId)
  /-- A failure is noted. -/
  | warning (warning : Warning)

/-- The notice of a value to whoever is told of it. -/
def Sink.notice (sink : Sink) (v : Value) : Notice :=
  match sink.member with
  | none => .value sink.callback v
  | some name => .member sink.callback name v

/-- A model and the state of its client. -/
structure World (γ : Type) where
  /-- The model. -/
  model : Model
  /-- The state of the client. -/
  client : γ

/-- A client, as what it does when it is told something. -/
abbrev Listener (γ : Type) : Type := Notice → World γ → World γ

/-- An operation that can fail; what it did before it failed stays done. -/
abbrev Act (γ α : Type) : Type := ExceptT Fault (StateM (World γ)) α

namespace World

variable {γ α : Type}

/-- Changes the model. -/
def mapModel (f : Model → Model) (w : World γ) : World γ := { w with model := f w.model }

/-- Does something while holding objects. -/
def holding (hs : List Hold) (f : World γ → World γ) (w : World γ) : World γ :=
  (f (w.mapModel (·.holdAll hs))).mapModel (·.releaseAll hs)

end World

namespace Act

variable {γ α : Type}

/-- An operation on the model alone. -/
def edit (e : Edit α) : Act γ α := fun w =>
  let (r, model) := e w.model
  (r, { w with model })

/-- An operation that cannot fail. -/
def run (f : World γ → World γ) : Act γ Unit := modify f

/-- The model as it is. -/
def model : Act γ Model := do return (← get).model

/-- Does something while holding objects. -/
def holding (hs : List Hold) (act : Act γ α) : Act γ α := fun w =>
  let (r, w) := act (w.mapModel (·.holdAll hs))
  (r, w.mapModel (·.releaseAll hs))

end Act

end LiveScope
