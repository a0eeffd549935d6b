import LiveScope.Model.Deep

/-!
# Releasing subscriptions

Unbinding a registration undoes what it recorded: it disconnects the handlers and takes down the
deep watch. The tables of an object that is not alive any more are read by nobody, so it makes no
difference that they are changed as well.
-/

namespace LiveScope.Model

/-- Disconnects handlers, each from its object. -/
def disconnectAll (m : Model) (connections : List (ObjectId × SubscriptionId)) : Model :=
  connections.foldl (fun m (o, id) => (m.disconnect o id).2) m

/-- Undoes what a registration recorded. -/
def undo (m : Model) (r : Registration) : Model :=
  let m := m.disconnectAll r.connections
  r.deep.elim m m.dropTree

/-- The registration of an object with a number. -/
def registration? (m : Model) (o : ObjectId) (id : Nat) : Option Registration :=
  (m.binding? o).bind fun b => b.registrations.find? (·.id == id)

/-- Releases the registration of an object with a number, and says whether there was one. -/
def unbind (m : Model) (o : ObjectId) (id : Nat) : Bool × Model :=
  match m.registration? o id with
  | some r => (true, (m.modifyBinding o (·.unregister id)).undo r)
  | none => (false, m)

/-- Releases all that is bound to an object: its registrations, its connections and its
watchers. -/
def unbindAll (m : Model) (o : ObjectId) : Model :=
  let registrations := (m.binding? o).elim [] (·.registrations)
  let m := m.modifyBinding o fun b => { b with registrations := [] }
  let m := registrations.foldl undo m
  m.modifyBinding o fun b => { b with connections := [], watchers := [] }

end LiveScope.Model
