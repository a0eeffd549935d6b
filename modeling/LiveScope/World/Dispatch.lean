import LiveScope.Expr.Eval
import LiveScope.World.Basic

/-!
# Writing and telling

A write through an object's proxy changes the store first and then tells those who subscribed: the
handlers connected to the key in the order of connection, then the watchers of the object in the
order of registration. Who is told is settled when the telling begins, except that a handler or
watcher removed in the meantime is passed over. Listeners may write in turn; such a write is told of
completely before the one that caused it goes on.
-/

namespace LiveScope

variable {γ : Type}

/-- Evaluates a formula and tells its value. A formula whose scope is gone is passed over, a failure
is noted. -/
def Formula.update (listen : Listener γ) (field : String) (f : Formula) (w : World γ) : World γ :=
  if w.model.isAlive f.scope then
    match f.expr.eval w.model (.object f.scope) f.row with
    | .ok v => w.holding (.object f.scope :: v.holds) (listen (f.sink.notice v))
    | .error fault => listen (.warning (.reevaluation field fault f.expr)) w
  else w

/-- Runs a handler with the new value of its key. -/
def Handler.run (listen : Listener γ) (v : Value) (h : Handler) (w : World γ) : World γ :=
  match h with
  | report sink => listen (sink.notice v) w
  | recompute field formula => formula.update listen field w
  | follow id =>
    match w.model.deep? id with
    | none => w
    | some deep =>
      let (r, model) := Model.retarget id v w.model
      let w := { w with model }
      let w := match r with
        | .ok () => w
        | .error fault => listen (.warning (.replacement deep.key fault)) w
      listen (.value deep.callback v) w

/-- Tells the function of a deep watch the value that its property has now. -/
def DeepWatch.tell (listen : Listener γ) (deep : DeepWatch) (w : World γ) : World γ :=
  if w.model.isAlive deep.owner then
    let v := w.model.get deep.owner deep.key
    w.holding (.object deep.owner :: v.holds) (listen (.value deep.callback v))
  else w

/-- Runs a watcher of an object after a change of one of its keys. -/
def Watcher.run (listen : Listener γ) (o : ObjectId) (key : String) (v : Value) (x : Watcher)
    (w : World γ) : World γ :=
  match x.watch with
  | .report callback => listen (.change callback key v o) w
  | .mend id =>
    match w.model.deep? id with
    | none => w
    | some deep =>
      let (r, model) := Model.mend id o x.seq key v w.model
      let w := { w with model }
      let w := match r with
        | .ok () => w
        | .error fault => listen (.warning (.nested key fault)) w
      deep.tell listen w

namespace World

/-- Runs the handlers that are still connected, one after the other. What a handler refers to is
held until it has run. -/
def runHandlers (listen : Listener γ) (o : ObjectId) (v : Value) (cs : List Connection)
    (w : World γ) : World γ :=
  cs.foldl (fun w c =>
    let w := if w.model.isConnected o ⟨c.key, c.seq⟩ then c.handler.run listen v w else w
    w.mapModel (·.releaseAll c.handler.holds)) w

/-- Runs the watchers that are still registered, one after the other. -/
def runWatchers (listen : Listener γ) (o : ObjectId) (key : String) (v : Value)
    (xs : List Watcher) (w : World γ) : World γ :=
  xs.foldl (fun w x => if w.model.isWatching o x.seq then x.run listen o key v w else w) w

/-- Tells of a change: handlers first, then watchers. A key that the binding does not tell of is
passed over. -/
def notify (listen : Listener γ) (o : ObjectId) (key : String) (v : Value) (w : World γ) :
    World γ :=
  if w.model.notifies o key then
    let handlers := w.model.handlersOf o key
    let watchers := w.model.watchersOf o
    let w := w.mapModel (·.holdAll (handlers.flatMap (·.handler.holds)))
    let w := w.runHandlers listen o v handlers
    w.runWatchers listen o key v watchers
  else w

/-- Tells of the length of a list. -/
def notifyLength (listen : Listener γ) (o : ObjectId) (length : Nat) (w : World γ) : World γ :=
  w.notify listen o Store.lengthKey (.number (Number.ofNat length))

end World

namespace Proxy

open Act

/-- Replaces the content of an object by the result of an operation on it. -/
def update {α : Type} (o : ObjectId) (f : Model → Store → Except Fault (α × Store)) : Edit α := do
  let m ← get
  let (a, s) ← f m (m.store o)
  modify (·.setStore o s)
  return a

/-- Writes a key of an object and tells of it; growing a list tells of its length too. -/
def set (listen : Listener γ) (o : ObjectId) (key : String) (v : Value) : Act γ Unit := do
  let written ← edit <| update o fun m s => do
    let (s, written) ← s.write m.text key v
    return (written, s)
  holding (.object o :: v.holds) do
    run (·.notify listen o key v)
    match written with
    | .resized length => if key ≠ Store.lengthKey then run (·.notifyLength listen o length)
    | .key => return

/-- Deletes a key of an object and tells that it is null. -/
def delete (listen : Listener γ) (o : ObjectId) (key : String) : Act γ Unit := do
  edit <| update o fun _ s => do return ((), ← s.erase key)
  holding [.object o] (run (·.notify listen o key .null))

/-- Appends to a list, telling of the new index and then of the length; gives the new length. -/
def push (listen : Listener γ) (o : ObjectId) (v : Value) : Act γ Nat := do
  let length ← edit <| update o fun _ s => do
    let s ← s.push v
    return (s.size, s)
  holding (.object o :: v.holds) do
    run (·.notify listen o (Store.indexKey (length - 1)) v)
    run (·.notifyLength listen o length)
  return length

/-- Takes the last element off a list, telling of the length if there was one. -/
def pop (listen : Listener γ) (o : ObjectId) : Act γ Value := do
  match ← edit (update o fun _ s => s.pop) with
  | some v =>
    holding (.object o :: v.holds) do
      run (·.notifyLength listen o ((← model).store o).size)
    return v
  | none => return .null

end Proxy

end LiveScope
