import LiveScope.Proofs.Model.Watching
import LiveScope.World.Bind

/-!
# What subscribing and releasing are made of

Resolving names, connecting, setting up deep watches, registering and releasing change a model by a
few primitive changes of a binding's tables and of the deep watches. A relation that holds over each
of these (`Model.Alters`) holds over all that subscribes or releases, also where it fails half-way.
-/

namespace LiveScope.Model

/-- A relation that holds over any number of changes, among them every primitive change of the
tables of a binding and of the deep watches. -/
structure Alters (I : Model → Model → Prop) : Prop extends Watches I where
  /-- A deep watch gets another tree. -/
  setTree : ∀ m id tree, I m (m.setTree id tree)
  /-- A deep watch is added. -/
  addDeep : ∀ m deep, I m (m.addDeep deep)
  /-- A handler is connected. -/
  connect : ∀ m o key handler, I m (m.connect o key handler).2
  /-- A handler is disconnected. -/
  disconnect : ∀ m o id, I m (m.disconnect o id).2
  /-- A subscription is registered. -/
  register : ∀ m o connections deep, I m (m.register o connections deep).2
  /-- A registration is taken out. -/
  unregister : ∀ m o id, I m (m.modifyBinding o (·.unregister id))
  /-- All registrations of a binding are taken out. -/
  unregisterAll : ∀ m o, I m (m.modifyBinding o fun b => { b with registrations := [] })
  /-- All connections and watchers of a binding are taken out. -/
  clear : ∀ m o, I m (m.modifyBinding o fun b => { b with connections := [], watchers := [] })

/-- A relation that holds over every way to subscribe from an object of a model. -/
structure Binds (I : Model → Model → Prop) (o : ObjectId) (m : Model) : Prop where
  /-- A handler is connected to a key. -/
  connect : ∀ key handler, I m (m.connect o key handler).2
  /-- A watcher is added. -/
  watch : ∀ w, I m (m.watch o w).2
  /-- Several names are subscribed to. -/
  bindFields : ∀ names handler, I m (bindFields o names handler m).2
  /-- A deep watch is set up. -/
  bindDeep : ∀ n k, I m (bindDeep o n k m).2

namespace Alters

variable {I : Model → Model → Prop}

/-! ## Subscribing -/

/-- Finding the owner of a name. -/
theorem resolveFrom (h : Alters I) (name : String) (hops sigils : Nat) (o : ObjectId) :
    Edit.Keeps I (resolveFrom name hops sigils o) := by
  have hI := h.steady
  -- By the steps that are still allowed; each scope on the way is given a binding.
  induction hops generalizing sigils o with
  | zero => cases sigils <;> exact hI.refl
  | succ hops ih =>
    cases sigils with
    | zero => exact .pure hI o
    | succ sigils =>
      unfold Model.resolveFrom
      refine .bind hI (.get hI) fun m => ?_
      split
      · exact .bind hI (.modify fun m => h.ensureBinding m _) fun _ => ih sigils _
      · exact .throw hI _

/-- Finding the owner of a name as seen from an object. -/
theorem resolve (h : Alters I) (o : ObjectId) (n : ScopedName) : Edit.Keeps I (resolve o n) :=
  h.resolveFrom n.name maxDepth n.sigils o

/-- Disconnecting several handlers. -/
theorem disconnectAll (h : Alters I) (connections : List (ObjectId × SubscriptionId)) (m : Model) :
    I m (m.disconnectAll connections) :=
  h.steady.foldl connections (fun x _ m => h.disconnect m x.1 x.2) m

/-- Connecting a handler to each of several names. -/
theorem connectFields (h : Alters I) (o : ObjectId) (handler : ScopedName → Handler)
    (names : List ScopedName) (made : List (ObjectId × SubscriptionId)) :
    Edit.Keeps I (connectFields o handler names made) := by
  have hI := h.steady
  induction names generalizing made with
  | nil => exact .pure hI made
  | cons n names ih =>
    unfold Model.connectFields
    -- If a name has no owner the connections made for the names before it are taken back.
    refine .bind hI (.tryCatch hI (h.resolve o n) fun fault => ?_) fun owner => ?_
    · exact .bind hI (.modify fun m => h.disconnectAll made m) fun _ => .throw hI fault
    · exact .bind hI (.modifyGet fun m => h.connect m owner n.name _) fun id => ih _

/-- Subscribing to several names at once. -/
theorem bindFields (h : Alters I) (o : ObjectId) (names : List ScopedName)
    (handler : ScopedName → Handler) : Edit.Keeps I (bindFields o names handler) := by
  have hI := h.steady
  unfold Model.bindFields
  split
  · exact .pure hI none
  · exact .bind hI (h.connectFields o handler names []) fun made =>
      .bind hI (.modifyGet fun m => h.register m o made none) fun _ => .pure hI _

/-- Setting up a deep watch of a property. -/
theorem bindDeep (h : Alters I) (o : ObjectId) (n : ScopedName) (k : CallbackId) :
    Edit.Keeps I (bindDeep o n k) := by
  have hI := h.steady
  unfold Model.bindDeep
  refine .bind hI (h.resolve o n) fun owner => .bind hI (.get hI) fun m => .bind hI (.get hI) ?_
  refine fun m' => .bind hI (.modify fun m => h.addDeep m _) fun _ => ?_
  refine .bind hI (h.retarget (fun m tree => h.setTree m _ tree) _) fun _ => ?_
  exact .bind hI (.modifyGet fun m => h.connect m owner n.name _) fun id =>
    .bind hI (.modifyGet fun m => h.register m o _ _) fun _ => .pure hI _

/-- Subscribing in any way. -/
theorem binds (h : Alters I) (o : ObjectId) (m : Model) : Binds I o m where
  connect := h.connect m o
  watch := h.watch m o
  bindFields names handler := h.bindFields o names handler m
  bindDeep n k := h.bindDeep o n k m

/-! ## Releasing -/

/-- Undoing what a registration recorded. -/
theorem undo (h : Alters I) (m : Model) (r : Registration) : I m (m.undo r) := by
  have hfirst := h.disconnectAll r.connections m
  show I m (r.deep.elim (m.disconnectAll r.connections) (m.disconnectAll r.connections).dropTree)
  cases r.deep with
  | none => exact hfirst
  | some d => exact h.steady.trans hfirst (h.dropTree (fun m tree => h.setTree m d tree) _)

/-- Releasing a registration. -/
theorem unbind (h : Alters I) (m : Model) (o : ObjectId) (id : Nat) : I m (m.unbind o id).2 := by
  unfold Model.unbind
  cases m.registration? o id with
  | none => exact h.steady.refl m
  | some r => exact h.steady.trans (h.unregister m o id) (h.undo _ r)

/-- Releasing all that is bound to an object. -/
theorem unbindAll (h : Alters I) (m : Model) (o : ObjectId) : I m (m.unbindAll o) :=
  h.steady.trans (h.unregisterAll m o) (h.steady.trans
    (h.steady.foldl _ (fun r _ m => h.undo m r) _) (h.clear _ o))

end Alters

end LiveScope.Model
