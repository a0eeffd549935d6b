import LiveScope.Expr.Basic
import LiveScope.Store

/-!
# The data model

A model holds the objects of a program's data. An object has a store and, once something is bound
to it, a binding: the handlers connected to its keys, the watchers of all of it, the registered
subscriptions, and a link to the scope that encloses it. All of a binding's ids come from one
counter, so that none is used twice.

Objects refer to each other by their places. A binding's link to its enclosing scope, the objects
that a registered subscription would release, and the scope of a formula do not keep an object
alive; which objects are alive is the subject of `LiveScope.Model.Liveness`.
-/

namespace LiveScope

/-- Identifies a function that is told of changes. -/
abbrev CallbackId := Nat

/-- Identifies a deep watch. -/
abbrev DeepId := Nat

/-- Who is told of a value, and the name it is told under, if there is one. -/
structure Sink where
  /-- The function told. -/
  callback : CallbackId
  /-- The name of the field or member. -/
  member : Option String
deriving DecidableEq, Repr

/-- An expression that is evaluated again when one of its fields changes. -/
structure Formula where
  /-- The expression. -/
  expr : Expr
  /-- The object whose scope it is evaluated in. -/
  scope : ObjectId
  /-- The spec row that supplies its `@` properties. -/
  row : Value
  /-- Who is told of the values. -/
  sink : Sink

/-- What is done when a key changes. -/
inductive Handler where
  /-- Tells a function the new value. -/
  | report (sink : Sink)
  /-- Evaluates a formula, one of whose fields this is. -/
  | recompute (field : String) (formula : Formula)
  /-- Moves a deep watch to the new value, and tells its function. -/
  | follow (id : DeepId)

/-- A handler connected to a key. -/
structure Connection where
  /-- Its number. -/
  seq : Nat
  /-- The key. -/
  key : String
  /-- What is done. -/
  handler : Handler

/-- What is done when anything in an object changes. -/
inductive Watch where
  /-- Tells a function the key and the value. -/
  | report (callback : CallbackId)
  /-- Mends a deep watch, and tells its function. -/
  | mend (id : DeepId)
deriving DecidableEq, Repr

/-- A watcher of a whole object. -/
structure Watcher where
  /-- Its number. -/
  seq : Nat
  /-- What is done. -/
  watch : Watch
deriving DecidableEq, Repr

/-- Identifies a handler connected to a key. -/
structure SubscriptionId where
  /-- The key. -/
  key : String
  /-- The number of the connection. -/
  seq : Nat
deriving DecidableEq, Repr

/-- A registered subscription, as what has to be undone to release it. -/
structure Registration where
  /-- Its number. -/
  id : Nat
  /-- The connections made, each with the object it was made on. -/
  connections : List (ObjectId × SubscriptionId)
  /-- The deep watch that was set up. -/
  deep : Option DeepId
deriving DecidableEq, Repr

/-- The subscriber tables and the scope link of one object. -/
structure Binding where
  /-- The handlers connected to keys, in the order of connection. -/
  connections : List Connection := []
  /-- The watchers, in the order of registration. -/
  watchers : List Watcher := []
  /-- The registered subscriptions, in the order of registration. -/
  registrations : List Registration := []
  /-- The enclosing scope, if one was set. -/
  parent : Option ObjectId := none
  /-- The keys whose changes are told of, or all. -/
  keys : Option (List String) := none
  /-- The last number given out. -/
  lastId : Nat := 0

namespace Binding

/-- Whether changes of a key are told of. -/
def notifies (b : Binding) (key : String) : Bool := b.keys.all (·.contains key)

/-- The handlers connected to a key, in the order of connection. -/
def handlersOf (b : Binding) (key : String) : List Connection :=
  b.connections.filter (·.key == key)

/-- The number of handlers and watchers. -/
def size (b : Binding) : Nat := b.connections.length + b.watchers.length

end Binding

/-- An object: its store, and its binding once it has one. -/
structure DataObject where
  /-- The content. -/
  store : Store
  /-- The subscriber tables. -/
  binding : Option Binding := none

/-- The watched objects under a deep watch: an object, the number of the watcher on its binding,
and the watched objects at its keys. -/
inductive WatchTree where
  | node (object : ObjectId) (watcher : Nat) (children : List (String × WatchTree))

/-- A property that is watched together with everything inside its value. -/
structure DeepWatch where
  /-- The object the property belongs to. -/
  owner : ObjectId
  /-- The key of the property. -/
  key : String
  /-- The function that is told. -/
  callback : CallbackId
  /-- The watched objects, if the value is an object. -/
  tree : Option WatchTree

/-- What keeps an object or a deep watch alive from outside the model. -/
inductive Hold where
  | object (id : ObjectId)
  | deep (id : DeepId)
deriving DecidableEq, Repr

/-- The objects of a program's data with their bindings. -/
structure Model where
  /-- All objects, each at its place. -/
  objects : Array DataObject := #[]
  /-- All deep watches. -/
  deeps : Array DeepWatch := #[]
  /-- What is held from outside, as often as it is held. -/
  holds : List Hold := []

namespace Model

/-- The content of an object. -/
def store (m : Model) (o : ObjectId) : Store := (m.objects[o]?.map (·.store)).getD default

/-- The binding of an object, if it has one. -/
def binding? (m : Model) (o : ObjectId) : Option Binding := m.objects[o]?.bind (·.binding)

/-- Whether an object has a binding. -/
def isBound (m : Model) (o : ObjectId) : Bool := (m.binding? o).isSome

/-- The value at a key of an object. -/
protected def get (m : Model) (o : ObjectId) (key : String) : Value := (m.store o).get key

/-- The kind of a value. -/
def kind (m : Model) : Value → Kind
  | .null => .null
  | .bool _ => .bool
  | .number _ => .number
  | .text _ => .text
  | .object o => (m.store o).kind
  | .function _ => .function

/-- Adds an object with the given content. -/
def add (m : Model) (store : Store) : ObjectId × Model :=
  (m.objects.size, { m with objects := m.objects.push { store } })

/-- Changes one object. -/
def modifyObject (m : Model) (o : ObjectId) (f : DataObject → DataObject) : Model :=
  { m with objects := m.objects.modify o f }

/-- Replaces the content of an object. -/
def setStore (m : Model) (o : ObjectId) (store : Store) : Model :=
  m.modifyObject o fun x => { x with store }

/-- Changes the binding of an object, if it has one. -/
def modifyBinding (m : Model) (o : ObjectId) (f : Binding → Binding) : Model :=
  m.modifyObject o fun x => { x with binding := x.binding.map f }

/-- Gives an object a binding, unless it has one. -/
def ensureBinding (m : Model) (o : ObjectId) : Model :=
  m.modifyObject o fun x => { x with binding := some (x.binding.getD {}) }

/-- The handlers connected to a key of an object. -/
def handlersOf (m : Model) (o : ObjectId) (key : String) : List Connection :=
  (m.binding? o).elim [] (·.handlersOf key)

/-- The watchers of an object. -/
def watchersOf (m : Model) (o : ObjectId) : List Watcher := (m.binding? o).elim [] (·.watchers)

/-- Whether changes of a key of an object are told of. -/
def notifies (m : Model) (o : ObjectId) (key : String) : Bool := (m.binding? o).any (·.notifies key)

/-- Whether a handler is still connected. -/
def isConnected (m : Model) (o : ObjectId) (id : SubscriptionId) : Bool :=
  (m.handlersOf o id.key).any (·.seq == id.seq)

/-- Whether a watcher is still registered. -/
def isWatching (m : Model) (o : ObjectId) (seq : Nat) : Bool :=
  (m.watchersOf o).any (·.seq == seq)

/-- The deep watch with an id. -/
def deep? (m : Model) (id : DeepId) : Option DeepWatch := m.deeps[id]?

/-- The watched objects of a deep watch. -/
def tree? (m : Model) (id : DeepId) : Option WatchTree := (m.deep? id).bind (·.tree)

/-- Replaces the watched objects of a deep watch. -/
def setTree (m : Model) (id : DeepId) (tree : Option WatchTree) : Model :=
  { m with deeps := m.deeps.modify id fun d => { d with tree } }

/-- Holds something from outside. -/
def hold (m : Model) (h : Hold) : Model := { m with holds := h :: m.holds }

/-- Gives up one hold. -/
def release (m : Model) (h : Hold) : Model := { m with holds := m.holds.erase h }

/-- Holds several things from outside. -/
def holdAll (m : Model) (hs : List Hold) : Model := { m with holds := hs ++ m.holds }

/-- Gives up several holds. -/
def releaseAll (m : Model) (hs : List Hold) : Model := hs.foldl release m

end Model

/-- What holding a value holds. -/
def Value.holds : Value → List Hold
  | object o => [.object o]
  | _ => []

end LiveScope
