import LiveScope.Proofs.Release.Recording
import LiveScope.Proofs.Row.Binding

/-!
# What programs do with rows and formulas

`Demand` lists what a program may do: write, subscribe, bind rows and give them up, release, and
change the model beside that. Unlike `Request` it asks for what a caller has to provide: objects
that exist, and scopes that have a binding. A program may be called back in the middle of an
operation, so that the steps that operations are made of are listed, too; a run may be cut off after
any of them. What is demanded upholds what registrations record (`Moves.upholds`), so that in every
run models are tidy (`tidy_of_moves`).
-/

namespace LiveScope

/-- What a program may do. -/
inductive Demand : Listener History → World History → World History → Prop
  /-- A write of an object through its proxy, of a value that exists. -/
  | write {listen : Listener History} {w : World History} {o : ObjectId} {op : Operation}
      (exist : ∀ q, op.value? = some (.object q) → q < w.model.objects.size) :
      Demand listen w (op.run listen o w)
  /-- A function is subscribed from an object. -/
  | subscribe {listen : Listener History} {w : World History} {o : ObjectId} {k : CallbackId}
      {s : Subscription} (bound : w.model.isBound o = true) : Demand listen w (s.run listen o k w).2
  /-- A row is bound to an object. -/
  | bindRow {listen : Listener History} {w : World History} {o : ObjectId} {k : CallbackId}
      {json : Json} (bound : w.model.isBound o = true) :
      Demand listen w (BoundRow.bind listen o json k w).2
  /-- The registrations of a row are released. -/
  | unbindRow {listen : Listener History} {w : World History} {row : BoundRow} :
      Demand listen w (w.mapModel row.undo)
  /-- A row is given up. -/
  | dropRow {listen : Listener History} {w : World History} {row : BoundRow} :
      Demand listen w (w.mapModel row.drop)
  /-- A handler is removed by its number. -/
  | disconnect {listen : Listener History} {w : World History} {o : ObjectId}
      {id : SubscriptionId} : Demand listen w (w.mapModel fun m => (m.disconnect o id).2)
  /-- A watcher is removed by its number. -/
  | unwatch {listen : Listener History} {w : World History} {o : ObjectId} {seq : Nat} :
      Demand listen w (w.mapModel fun m => (m.unwatch o seq).2)
  /-- A registration is released. -/
  | unbind {listen : Listener History} {w : World History} {o : ObjectId} {id : Nat} :
      Demand listen w (w.mapModel fun m => (m.unbind o id).2)
  /-- All that is bound to an object is released. -/
  | unbindAll {listen : Listener History} {w : World History} {o : ObjectId} :
      Demand listen w (w.mapModel fun m => m.unbindAll o)
  /-- An object is made of values that exist. -/
  | add {listen : Listener History} {w : World History} {s : Store}
      (exist : ∀ q, .object q ∈ s.values → q < w.model.objects.size) :
      Demand listen w (w.mapModel fun m => (m.add s).2)
  /-- The content of an object is replaced by one of values that exist, and nobody is told. -/
  | setStore {listen : Listener History} {w : World History} {o : ObjectId} {s : Store}
      (exist : ∀ q, .object q ∈ s.values → q < w.model.objects.size) :
      Demand listen w (w.mapModel fun m => m.setStore o s)
  /-- An object is given a binding, unless it has one. -/
  | proxy {listen : Listener History} {w : World History} {o : ObjectId} :
      Demand listen w (w.mapModel fun m => m.ensureBinding o)
  /-- An object is given a binding that may be restricted to some keys. -/
  | bind {listen : Listener History} {w : World History} {v : Value}
      {keys : Option (List String)} : Demand listen w (w.mapModel fun m => (m.bind v keys).2)
  /-- An object is linked to one with a binding as its enclosing scope, or its link is cleared. -/
  | setParent {listen : Listener History} {w : World History} {o : ObjectId}
      {parent : Option ObjectId} (bound : ∀ p, parent = some p → w.model.isBound p = true) :
      Demand listen w (w.mapModel fun m => (Model.setParent o parent m).2)
  /-- Other things are held from outside. -/
  | hold {listen : Listener History} {w : World History} {holds : List Hold} :
      Demand listen w (w.mapModel fun m => { m with holds })
  /-- The program is told something, in the middle of an operation. -/
  | told {listen : Listener History} {w : World History} {n : Notice} :
      Demand listen w (w.record (.told n))
  /-- The fields of a formula are subscribed to, in the middle of an operation. -/
  | bindFields {listen : Listener History} {w : World History} {o : ObjectId}
      {names : List ScopedName} {handler : ScopedName → Handler}
      (bound : w.model.isBound o = true) :
      Demand listen w (w.mapModel fun m => (Model.bindFields o names handler m).2)
  /-- A deep watch is moved to a value that exists, in the middle of a dispatch. -/
  | retarget {listen : Listener History} {w : World History} {id : DeepId} {v : Value}
      (exist : ∀ q, v = .object q → q < w.model.objects.size) :
      Demand listen w (w.mapModel fun m => (Model.retarget id v m).2)
  /-- A deep watch is mended with a value that exists, in the middle of a dispatch. -/
  | mend {listen : Listener History} {w : World History} {id : DeepId} {o : ObjectId} {seq : Nat}
      {key : String} {v : Value} (exist : ∀ q, v = .object q → q < w.model.objects.size) :
      Demand listen w (w.mapModel fun m => (Model.mend id o seq key v m).2)

/-- Any number of changes that uphold what is recorded do. -/
theorem World.upholds_steady {γ : Type} :
    Steady fun w w' : World γ => w.model.Upholds w'.model :=
  ⟨fun w => Model.Upholds.steady.refl w.model, Model.Upholds.steady.trans⟩

/-- What is done while a change is told of upholds what is recorded. -/
theorem World.upholds_attends {γ : Type} :
    World.Attends fun w w' : World γ => w.model.Upholds w'.model :=
  Model.upholds_watches.attends Model.upholds_setTree Model.upholds_holds fun _ _ h => h

/-- Giving up several things upholds what is recorded. -/
theorem Model.upholds_releaseAll (m : Model) (hs : List Hold) : m.Upholds (m.releaseAll hs) :=
  Upholds.steady.foldl hs (fun h _ m => upholds_holds m (m.holds.erase h)) m

/-- Releasing the registrations of a row upholds what is recorded. -/
theorem BoundRow.upholds_undo (row : BoundRow) (m : Model) : m.Upholds (row.undo m) :=
  row.undo_within Model.Upholds.steady (fun m id => Model.upholds_unbind m row.scope id) m

/-- Giving up a row upholds what is recorded. -/
theorem BoundRow.upholds_drop (row : BoundRow) (m : Model) : m.Upholds (row.drop m) :=
  Model.Upholds.steady.trans (row.upholds_undo m) ((row.undo m).upholds_releaseAll row.holds)

section Upholding

variable {γ : Type} {listen : Listener γ} {w : World γ} {o : ObjectId}
  (hlisten : ∀ n (u : World γ), u.model.Upholds (listen n u).model)

include hlisten

/-- A write of a value that exists upholds what is recorded if its listener does. -/
theorem Operation.upholds_run (op : Operation) (hwhole : w.model.Whole)
    (exist : ∀ q, op.value? = some (.object q) → q < w.model.objects.size) :
    w.model.Upholds (op.run listen o w).model := by
  refine Operation.run_within World.upholds_steady World.upholds_attends hlisten fun μ hμ => ?_
  refine Model.upholds_setStore fun q hq => ?_
  exact (Operation.object_mem_of_mutation? hμ (.inl hq)).elim (hwhole o q) (exist q)

/-- A subscription from an object with a binding upholds what is recorded if its listener does. -/
theorem Subscription.upholds_run (s : Subscription) (k : CallbackId)
    (bound : w.model.isBound o = true) : w.model.Upholds (s.run listen o k w).2.model :=
  s.run_within World.upholds_steady World.upholds_attends.loose hlisten
    (Model.upholds_binds bound) (fun _ h => h) k

/-- Binding a row to an object with a binding upholds what is recorded if its listener does. -/
theorem BoundRow.upholds_bind (json : Json) (k : CallbackId) (bound : w.model.isBound o = true) :
    w.model.Upholds (BoundRow.bind listen o json k w).2.model := by
  -- From one member to the next the scope has a binding, since none is lost.
  have hI : Steady fun m m' : Model => m.isBound o = true → m.Upholds m' :=
    ⟨fun m _ => Model.Upholds.steady.refl m, fun h h' hb =>
      Model.Upholds.steady.trans (h hb) (h' ((h hb).renews.isBound o hb))⟩
  refine BoundRow.bind_within
    (I := fun m m' => m.isBound o = true → m.Upholds m')
    (J := fun w w' => w.model.isBound o = true → w.model.Upholds w'.model)
    ⟨fun w => hI.refl w.model, hI.trans⟩ (fun w holds _ => Model.upholds_holds w.model holds)
    (fun n u _ => hlisten n u) (fun m => ?_) (fun _ _ h => h) (fun row m _ _ => row.upholds_undo m)
    (fun m json _ => Model.upholds_ofJson json m) json k w bound
  exact ⟨fun key handler _ => Model.upholds_connect m o key handler,
    fun x _ => Model.upholds_watches.watch m o x,
    fun names handler hb => Model.upholds_bindFields hb names handler,
    fun n k hb => Model.upholds_bindDeep hb n k⟩

end Upholding

variable {w w' : World History}

/-- What is demanded upholds what is recorded if its listener does. -/
theorem Demand.upholds {listen : Listener History}
    (hlisten : ∀ n (u : World History), u.model.Upholds (listen n u).model)
    (h : Demand listen w w') : w.model.Upholds w'.model := by
  cases h with
  | write exist =>
    refine .of_tidy ?_ fun ht => Operation.upholds_run hlisten _ ht.whole exist
    exact Operation.run_within World.renews_steady World.renews_attends
      (fun n u => (hlisten n u).renews) fun μ _ => .setStore w.model _ μ.store
  | subscribe bound => exact Subscription.upholds_run hlisten _ _ bound
  | bindRow bound => exact BoundRow.upholds_bind hlisten _ _ bound
  | @unbindRow row => exact row.upholds_undo w.model
  | @dropRow row => exact row.upholds_drop w.model
  | disconnect => exact Model.upholds_disconnect w.model _ _
  | unwatch => exact Model.upholds_watches.unwatch w.model _ _
  | unbind => exact Model.upholds_unbind w.model _ _
  | unbindAll => exact Model.upholds_unbindAll w.model _
  | add exist => exact Model.upholds_add exist
  | setStore exist => exact Model.upholds_setStore exist
  | proxy => exact Model.upholds_watches.ensureBinding w.model _
  | bind => exact Model.upholds_bind _ _
  | setParent bound => exact Model.upholds_setParent bound _
  | hold => exact Model.upholds_holds w.model _
  | told => exact Model.Upholds.steady.refl w.model
  | bindFields bound => exact Model.upholds_bindFields bound _ _
  | @retarget id v =>
    exact Model.upholds_watches.retarget (fun m tree => Model.upholds_setTree m id tree) v w.model
  | @mend id o seq key v =>
    exact Model.upholds_watches.mend (fun m _ _ _ => Model.upholds_setTree m id _) o seq key v
      w.model

/-- A run upholds what is recorded. -/
theorem Moves.upholds (moves : Moves Demand w w') : w.model.Upholds w'.model :=
  moves.within World.upholds_steady fun _ _ _ hlisten h => h.upholds hlisten

/-- In every run models are tidy. -/
theorem tidy_of_moves (moves : Moves Demand ⟨{}, []⟩ w) : w.model.Tidy :=
  moves.upholds.tidy Model.tidy_empty

end LiveScope
