import LiveScope.Model.Scope

/-!
# Connections, watchers and registrations

The primitive changes of a binding's tables. Connecting and registering append to a table under a
number never given out before; disconnecting, unwatching and unregistering take out the entry with
a number, and say whether there was one.
-/

namespace LiveScope

namespace Binding

/-- The next number. -/
def nextId (b : Binding) : Nat := b.lastId + 1

/-- Connects a handler to a key. -/
def connect (b : Binding) (key : String) (handler : Handler) : Binding :=
  { b with connections := b.connections ++ [⟨b.nextId, key, handler⟩], lastId := b.nextId }

/-- Removes a handler from a key. -/
def disconnect (b : Binding) (id : SubscriptionId) : Binding :=
  { b with connections := b.connections.filter fun c => !(c.key == id.key && c.seq == id.seq) }

/-- Adds a watcher. -/
def watch (b : Binding) (watch : Watch) : Binding :=
  { b with watchers := b.watchers ++ [⟨b.nextId, watch⟩], lastId := b.nextId }

/-- Removes a watcher. -/
def unwatch (b : Binding) (seq : Nat) : Binding :=
  { b with watchers := b.watchers.filter (·.seq != seq) }

/-- Registers what a subscription would release. -/
def register (b : Binding) (connections : List (ObjectId × SubscriptionId))
    (deep : Option DeepId) : Binding :=
  { b with
    registrations := b.registrations ++ [⟨b.nextId, connections, deep⟩]
    lastId := b.nextId }

/-- Removes a registration. -/
def unregister (b : Binding) (id : Nat) : Binding :=
  { b with registrations := b.registrations.filter (·.id != id) }

end Binding

namespace SubscriptionId

/-- The written form: the key, a colon and the number. -/
def text (id : SubscriptionId) : String := id.key ++ ":" ++ id.seq.repr

/-- The number in a written form: digits of a number below `2 ^ 64`, after an optional plus. -/
def seq? (cs : List Char) : Option Nat :=
  let ds := match cs with
    | '+' :: ds => ds
    | ds => ds
  if ds.isEmpty || ds.any (fun c => (Decimal.digit? c).isNone) then none
  else
    let n := Decimal.natural 0 ds
    if n < Nat.pow 2 64 then some n else none

/-- Reads a written form; the last colon ends the key. -/
def ofText (s : String) : Except Fault SubscriptionId :=
  let backwards := s.toList.reverse
  let number := (backwards.takeWhile (· != ':')).reverse
  match backwards.dropWhile (· != ':') with
  | [] => .error (.malformedSubscription s)
  | _ :: key =>
    match seq? number with
    | some seq => .ok ⟨String.ofList key.reverse, seq⟩
    | none => .error (.malformedSubscription s)

end SubscriptionId

namespace Model

/-- The next number of an object's binding. -/
def nextId (m : Model) (o : ObjectId) : Nat := (m.binding? o).elim 1 (·.nextId)

/-- Connects a handler to a key of an object. -/
def connect (m : Model) (o : ObjectId) (key : String) (handler : Handler) :
    SubscriptionId × Model :=
  (⟨key, m.nextId o⟩, m.modifyBinding o (·.connect key handler))

/-- Removes a handler from an object. -/
def disconnect (m : Model) (o : ObjectId) (id : SubscriptionId) : Bool × Model :=
  (m.isConnected o id, m.modifyBinding o (·.disconnect id))

/-- Adds a watcher to an object. -/
def watch (m : Model) (o : ObjectId) (w : Watch) : Nat × Model :=
  (m.nextId o, m.modifyBinding o (·.watch w))

/-- Removes a watcher from an object. -/
def unwatch (m : Model) (o : ObjectId) (seq : Nat) : Bool × Model :=
  (m.isWatching o seq, m.modifyBinding o (·.unwatch seq))

/-- Registers with an object what a subscription would release. -/
def register (m : Model) (o : ObjectId) (connections : List (ObjectId × SubscriptionId))
    (deep : Option DeepId) : Nat × Model :=
  (m.nextId o, m.modifyBinding o (·.register connections deep))

/-- The number of handlers and watchers of an object. -/
def handlerCount (m : Model) (o : ObjectId) : Nat := (m.binding? o).elim 0 (·.size)

/-- The number of registrations of an object. -/
def bindCount (m : Model) (o : ObjectId) : Nat := (m.binding? o).elim 0 (·.registrations.length)

end Model

end LiveScope
