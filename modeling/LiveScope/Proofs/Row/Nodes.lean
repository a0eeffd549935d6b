import LiveScope.Proofs.Model.Nodes
import LiveScope.Proofs.Row.Demands

/-!
# Nodes have numbers of their own in every run

What is demanded keeps the nodes of trees apart (`Model.Unshared`): objects that are watched exist,
so that their watchers have numbers that were not given out before. Subscribing builds trees,
releasing takes them down, and a dispatch moves and mends them with values that exist
(`World.sustains_notify`). So it is in every run (`unshared_of_moves`).
-/

namespace LiveScope

namespace Model

variable {m m' m'' : Model} {o : ObjectId} {v : Value}

/-- What a change makes of trees: it upholds what is recorded, and nodes have numbers of their
own. -/
structure Sustains (m m' : Model) : Prop where
  /-- What is recorded is upheld. -/
  upholds : m.Upholds m'
  /-- Nodes have numbers of their own, if they had. -/
  unshared : m.Tidy → m.Unshared → m'.Unshared

namespace Sustains

/-- Any number of changes is one. -/
theorem steady : Steady Sustains where
  refl m := ⟨Upholds.steady.refl m, fun _ h => h⟩
  trans h h' := ⟨Upholds.steady.trans h.upholds h'.upholds,
    fun ht hr => h'.unshared (h.upholds.tidy ht) (h.unshared ht hr)⟩

/-- It is enough to look at changes of a tidy model. -/
theorem of_tidy (hu : m.Upholds m') (h : m.Tidy → m.Sustains m') : m.Sustains m' :=
  ⟨hu, fun ht => (h ht).unshared ht⟩

/-- A change that builds no tree. -/
theorem of_trees (hu : m.Upholds m') (htrees : ∀ d t, m'.tree? d = some t → m.tree? d = some t) :
    m.Sustains m' :=
  ⟨hu, fun _ hr => hr.of_trees hu.renews.lastIdOf htrees⟩

/-- A change that leaves the deep watches as they are. -/
theorem of_deeps (hu : m.Upholds m') (hdeeps : m'.deeps = m.deeps) : m.Sustains m' :=
  .of_trees hu fun d _ ht => (tree?_congr hdeeps d).symm.trans ht

end Sustains

/-! ## Keeping up deep watches -/

/-- Holding other things sustains trees. -/
theorem sustains_holds (m : Model) (holds : List Hold) : m.Sustains { m with holds } :=
  .of_deeps (upholds_holds m holds) rfl

/-- Moving a deep watch to a value that exists sustains trees. -/
theorem sustains_retarget (hv : ∀ q, v = .object q → q < m.objects.size) (id : DeepId) :
    m.Sustains (retarget id v m).2 where
  upholds := upholds_watches.retarget (fun m tree => upholds_setTree m id tree) v m
  unshared ht hr := hr.retarget ht.whole hv rfl

/-- Mending a tree with a value that exists sustains trees. -/
theorem sustains_mend (hv : ∀ q, v = .object q → q < m.objects.size) (id : DeepId) (o : ObjectId)
    (seq : Nat) (key : String) : m.Sustains (mend id o seq key v m).2 where
  upholds := upholds_watches.mend (fun m _ _ _ => upholds_setTree m id _) o seq key v m
  unshared ht hr := hr.mend ht.whole hv rfl

/-! ## Subscribing -/

/-- Subscribing to several names leaves the deep watches as they are. -/
theorem deeps_bindFields (ht : m.Tidy) (names : List ScopedName) (handler : ScopedName → Handler) :
    (bindFields o names handler m).2.deeps = m.deeps := by
  rw [bindFields_eq]
  split
  · rfl
  · cases hc : connectFields o handler names [] m with
    | mk r m₁ =>
      cases r with
      | error fault => exact (subscribes_of_refused ht.numbered.connection_le hc).deeps
      | ok made =>
        obtain ⟨_, _, _, hsub, _⟩ := connectFields_of_ok hc
        exact hsub.deeps

/-- Setting up a deep watch sustains trees, also where it fails. -/
theorem sustains_bindDeep (hb : m.isBound o = true) (n : ScopedName) (k : CallbackId) :
    m.Sustains (bindDeep o n k m).2 := by
  refine ⟨upholds_bindDeep hb n k, fun ht hr => ?_⟩
  have hresolved {r : Except Fault ObjectId} {a : Model} (h : resolve o n m = (r, a)) :
      a.Unshared ∧ a.Whole := by
    have hsub := subscribes_resolve h
    refine ⟨hr.of_trees hsub.lastIdOf fun d _ ht => (tree?_congr hsub.deeps d).symm.trans ht,
      fun p q hq => ?_⟩
    rw [hsub.store] at hq
    exact Nat.lt_of_lt_of_eq (ht.whole p q hq) hsub.size.symm
  -- The deep watch has no tree before it is moved to the value of its property.
  have hadded {a : Model} (h : a.Unshared) (owner : ObjectId) :
      (a.addDeep ⟨owner, n.name, k, none⟩).Unshared := by
    refine h.of_trees (fun _ => Nat.le_refl _) fun d t ht => ?_
    rw [tree?_addDeep] at ht
    exact ht
  have hretargeted {owner : ObjectId} {a b : Model} {r : Except Fault Unit}
      (hres : resolve o n m = (.ok owner, a))
      (hret : retarget a.deeps.size (a.get owner n.name)
        (a.addDeep ⟨owner, n.name, k, none⟩) = (r, b)) : b.Unshared := by
    obtain ⟨hunshared, hwhole⟩ := hresolved hres
    exact (hadded hunshared owner).retarget hwhole
      (fun q hq => hwhole owner q (Store.get_mem_values hq)) hret
  cases hbind : bindDeep o n k m with
  | mk r m' =>
    cases setUp_of_bindDeep hbind with
    | unresolved hres => exact (hresolved hres).1
    | refused hres hret => exact hretargeted hres hret
    | @bound owner a b c seq hres hret hconnected =>
      -- Connecting and registering it builds no tree.
      obtain ⟨rfl, rfl⟩ := Prod.mk.inj hconnected
      have hconnect := (renews_alters.connect b owner n.name (.follow a.deeps.size)).lastIdOf
      refine (hretargeted hres hret).of_trees (fun p => ?_) fun _ _ ht => ht
      exact Nat.le_trans (hconnect p) ((renews_alters.register _ o _ _).lastIdOf p)

/-- Every way to subscribe from an object with a binding sustains trees. -/
theorem sustains_binds (hb : m.isBound o = true) : Binds Sustains o m where
  connect key handler := .of_deeps (upholds_connect m o key handler) rfl
  watch w := .of_deeps (upholds_watches.watch m o w) rfl
  bindFields names handler := .of_tidy (upholds_bindFields hb names handler) fun ht =>
    .of_deeps (upholds_bindFields hb names handler) (deeps_bindFields ht names handler)
  bindDeep n k := sustains_bindDeep hb n k

/-! ## Releasing -/

/-- Undoing a registration builds no tree. -/
theorem tree?_of_undo (m : Model) (r : Registration) (d : DeepId) (t : WatchTree)
    (ht : (m.undo r).tree? d = some t) : m.tree? d = some t := by
  have hdeeps := (disconnects_disconnectAll m r.connections).deeps
  cases hdeep : r.deep with
  | none =>
    rw [undo_of_none hdeep] at ht
    exact (tree?_congr hdeeps d).symm.trans ht
  | some id =>
    rw [undo_of_some hdeep, tree?_dropTree] at ht
    split at ht
    · cases ht
    · exact (tree?_congr hdeeps d).symm.trans ht

/-- Releasing a registration sustains trees. -/
theorem sustains_unbind (m : Model) (o : ObjectId) (id : Nat) : m.Sustains (m.unbind o id).2 := by
  refine .of_trees (upholds_unbind m o id) fun d t ht => ?_
  cases hreg : m.registration? o id with
  | none =>
    rw [unbind_of_none hreg] at ht
    exact ht
  | some r =>
    rw [unbind_of_some hreg] at ht
    exact tree?_of_undo (m.modifyBinding o (·.unregister id)) r d t ht

/-- Releasing all that is bound to an object sustains trees. -/
theorem sustains_unbindAll (m : Model) (o : ObjectId) : m.Sustains (m.unbindAll o) := by
  have hfold : ∀ (rs : List Registration) (m : Model) (d : DeepId) (t : WatchTree),
      (rs.foldl undo m).tree? d = some t → m.tree? d = some t := by
    intro rs
    induction rs with
    | nil => exact fun _ _ _ h => h
    | cons r rs ih => exact fun m d t ht => tree?_of_undo m r d t (ih (m.undo r) d t ht)
  refine .of_trees (upholds_unbindAll m o) fun d t ht => ?_
  rw [unbindAll_eq] at ht
  exact hfold _ (m.modifyBinding o fun b => { b with registrations := [] }) d t ht

/-! ## Bindings -/

/-- Giving an object its first binding leaves the deep watches as they are. -/
theorem deeps_bind (m : Model) (v : Value) (keys : Option (List String)) :
    (Model.bind v keys m).2.deeps = m.deeps := by
  unfold Model.bind
  cases v.object? with
  | none => rfl
  | some o =>
    dsimp only
    rw [Edit.bind_of_ok (e := get) rfl]
    split <;> rfl

/-- So does linking an object to another one. -/
theorem deeps_setParent (m : Model) (o : ObjectId) (parent : Option ObjectId) :
    (Model.setParent o parent m).2.deeps = m.deeps := by
  unfold Model.setParent
  split <;> rfl

end Model

/-- Releasing the registrations of a row sustains trees. -/
theorem BoundRow.sustains_undo (row : BoundRow) (m : Model) : m.Sustains (row.undo m) :=
  row.undo_within Model.Sustains.steady (fun m id => Model.sustains_unbind m row.scope id) m

/-- Giving up a row sustains trees. -/
theorem BoundRow.sustains_drop (row : BoundRow) (m : Model) : m.Sustains (row.drop m) :=
  Model.Sustains.steady.trans (row.sustains_undo m) <|
    Model.Sustains.steady.foldl row.holds
      (fun h _ m => Model.sustains_holds m (m.holds.erase h)) (row.undo m)

/-! ## Telling -/

namespace World

variable {γ : Type} {n : Nat}

/-- Whether a change of a world that has at least so many objects sustains trees. -/
def Sustains (n : Nat) (w w' : World γ) : Prop :=
  n ≤ w.model.objects.size → w.model.Sustains w'.model

/-- Any number of changes is one, for no object ever goes. -/
theorem sustains_steady (n : Nat) : Steady (Sustains n : World γ → World γ → Prop) where
  refl w _ := Model.Sustains.steady.refl w.model
  trans h h' hsize := Model.Sustains.steady.trans (h hsize)
    (h' (Nat.le_trans hsize (h hsize).upholds.renews.size))

/-- Holding other things sustains trees. -/
theorem sustains_loose (n : Nat) : Loose (Sustains n : World γ → World γ → Prop) :=
  fun w holds _ => Model.sustains_holds w.model holds

end World

section Telling

variable {γ : Type} {listen : Listener γ} {w : World γ} {o : ObjectId}

/-- A dispatch of a value that exists sustains trees if its listener does. -/
theorem World.sustains_notify {n : Nat}
    (hlisten : ∀ x (u : World γ), World.Sustains n u (listen x u)) {v : Value} (key : String)
    (hv : ∀ q, v = .object q → q < n) :
    World.Sustains n w (w.notify listen o key v) := by
  refine notify_tells (sustains_steady n) (sustains_loose n) hlisten (fun u id hsize => ?_)
    (fun u id seq hsize => ?_) w
  · exact Model.sustains_retarget (fun q hq => Nat.lt_of_lt_of_le (hv q hq) hsize) id
  · exact Model.sustains_mend (fun q hq => Nat.lt_of_lt_of_le (hv q hq) hsize) id o seq key

variable (hlisten : ∀ x (u : World γ), u.model.Sustains (listen x u).model)

include hlisten

/-- A write of a value that exists sustains trees if its listener does. -/
theorem Operation.sustains_run (op : Operation) (hwhole : w.model.Whole)
    (exist : ∀ q, op.value? = some (.object q) → q < w.model.objects.size) :
    w.model.Sustains (op.run listen o w).model := by
  rw [Operation.run_eq]
  cases hμ : op.mutation? w.model o with
  | error => exact Model.Sustains.steady.refl w.model
  | ok μ =>
    let n := w.model.objects.size
    have hexist {q : ObjectId}
        (hq : .object q ∈ μ.store.values ∨ ∃ a ∈ μ.announcements, a.2 = .object q) : q < n :=
      (Operation.object_mem_of_mutation? hμ hq).elim (hwhole o q) (exist q)
    let w₁ := w.mapModel (·.setStore μ.object μ.store)
    have hwritten : World.Sustains n w w₁ := fun _ =>
      .of_deeps (Model.upholds_setStore fun q hq => hexist (.inl hq)) rfl
    have htold (u : World γ) :
        World.Sustains n u (Mutation.announce listen μ.object μ.announcements u) :=
      (World.sustains_steady n).foldl μ.announcements (fun a ha u => World.sustains_notify
        (fun x u _ => hlisten x u) a.1 fun q hq => hexist (.inr ⟨a, ha, hq⟩)) u
    exact (World.sustains_steady n).trans hwritten ((World.sustains_loose n).holding
      (World.sustains_steady n) htold μ.holds w₁) (Nat.le_refl n)

/-- A subscription from an object with a binding sustains trees if its listener does. -/
theorem Subscription.sustains_run (s : Subscription) (k : CallbackId)
    (bound : w.model.isBound o = true) : w.model.Sustains (s.run listen o k w).2.model :=
  s.run_within (World.sustains_steady 0) (World.sustains_loose 0) (fun x u _ => hlisten x u)
    (Model.sustains_binds bound) (fun _ h _ => h) k (Nat.zero_le _)

/-- Binding a row to an object with a binding sustains trees if its listener does. -/
theorem BoundRow.sustains_bind (json : Json) (k : CallbackId) (bound : w.model.isBound o = true) :
    w.model.Sustains (BoundRow.bind listen o json k w).2.model := by
  -- From one member to the next the scope has a binding, since none is lost.
  have hI : Steady fun m m' : Model => m.isBound o = true → m.Sustains m' :=
    ⟨fun m _ => Model.Sustains.steady.refl m, fun h h' hb =>
      Model.Sustains.steady.trans (h hb) (h' ((h hb).upholds.renews.isBound o hb))⟩
  refine BoundRow.bind_within
    (I := fun m m' => m.isBound o = true → m.Sustains m')
    (J := fun w w' => w.model.isBound o = true → w.model.Sustains w'.model)
    ⟨fun w => hI.refl w.model, hI.trans⟩ (fun w holds _ => Model.sustains_holds w.model holds)
    (fun x u _ => hlisten x u) (fun m => ?_) (fun _ _ h => h) (fun row m _ _ => row.sustains_undo m)
    (fun m json _ => .of_deeps (Model.upholds_ofJson json m) ?_) json k w bound
  · exact ⟨fun key handler hb => (Model.sustains_binds hb).connect key handler,
      fun x hb => (Model.sustains_binds hb).watch x,
      fun names handler hb => (Model.sustains_binds hb).bindFields names handler,
      fun n k hb => Model.sustains_bindDeep hb n k⟩
  · exact Model.ofJson_within (I := fun m m' => m'.deeps = m.deeps)
      ⟨fun _ => rfl, fun h h' => h'.trans h⟩ (fun _ _ => rfl) json m

end Telling

variable {w w' : World History}

/-- What is demanded sustains trees if its listener does. -/
theorem Demand.sustains {listen : Listener History}
    (hlisten : ∀ n (u : World History), u.model.Sustains (listen n u).model)
    (h : Demand listen w w') : w.model.Sustains w'.model := by
  have hupholds := h.upholds fun n u => (hlisten n u).upholds
  cases h with
  | write exist => exact .of_tidy hupholds fun ht => Operation.sustains_run hlisten _ ht.whole exist
  | subscribe bound => exact Subscription.sustains_run hlisten _ _ bound
  | bindRow bound => exact BoundRow.sustains_bind hlisten _ _ bound
  | @unbindRow row => exact row.sustains_undo w.model
  | @dropRow row => exact row.sustains_drop w.model
  | unbind => exact Model.sustains_unbind w.model _ _
  | unbindAll => exact Model.sustains_unbindAll w.model _
  | bindFields bound => exact (Model.sustains_binds bound).bindFields _ _
  | retarget exist => exact Model.sustains_retarget exist _
  | mend exist => exact Model.sustains_mend exist _ _ _ _
  | @bind v keys => exact .of_deeps hupholds (Model.deeps_bind w.model v keys)
  | @setParent o parent => exact .of_deeps hupholds (Model.deeps_setParent w.model o parent)
  | disconnect | unwatch | add | setStore | proxy | hold | told => exact .of_deeps hupholds rfl

/-- A run sustains trees. -/
theorem Moves.sustains (moves : Moves Demand w w') : w.model.Sustains w'.model :=
  moves.within (I := fun w w' => w.model.Sustains w'.model)
    ⟨fun w => Model.Sustains.steady.refl w.model, Model.Sustains.steady.trans⟩
    fun _ _ _ hlisten h => h.sustains hlisten

/-- In every run nodes have numbers of their own. -/
theorem unshared_of_moves (moves : Moves Demand ⟨{}, []⟩ w) : w.model.Unshared :=
  moves.sustains.unshared Model.tidy_empty fun _ _ ht => by cases ht

end LiveScope
