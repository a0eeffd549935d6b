import LiveScope.Proofs.Model.Renewal
import LiveScope.Proofs.Release.Subscribing

/-!
# What registrations record

A registration records the connections that were made for it. As long as it is there it may be
relied on to release them, so it must not go without them: `Model.Upholds` says of a change that a
registration that is gone afterwards has been undone, wherever its connections were. This holds over
everything that subscribes or releases, given that registrations record only numbers that were given
out (`Model.Tidy`), which is kept, too.

`Entry` stands for an entry in any of the three tables of a binding, for statements about all that
is subscribed anywhere.
-/

namespace LiveScope

/-! ## Entries of the tables -/

/-- An entry in a table of the binding of an object. -/
inductive Entry where
  | connection (o : ObjectId) (c : Connection)
  | watcher (o : ObjectId) (x : Watcher)
  | registration (o : ObjectId) (r : Registration)

namespace Entry

variable {m m' : Model} {e : Entry}

/-- The object whose binding it is an entry of. -/
def object : Entry → ObjectId
  | connection o _ | watcher o _ | registration o _ => o

/-- Its number. -/
def number : Entry → Nat
  | connection _ c => c.seq
  | watcher _ x => x.seq
  | registration _ r => r.id

/-- Whether it is in the tables of a model. -/
def In (m : Model) : Entry → Prop
  | connection o c => c ∈ m.connectionsOf o
  | watcher o x => x ∈ m.watchersOf o
  | registration o r => r ∈ m.registrationsOf o

/-- Its number was given out. -/
theorem In.number_le (h : e.In m) (hn : m.Numbered) : e.number ≤ m.lastIdOf e.object := by
  rw [Model.lastIdOf_eq]
  cases e with
  | connection o c =>
    have hc : c ∈ m.connectionsOf o := h
    rw [Model.connectionsOf_eq] at hc
    exact (hn o).connections.bounded c.seq (List.mem_map_of_mem hc)
  | watcher o x =>
    have hx : x ∈ m.watchersOf o := h
    rw [Model.watchersOf_eq] at hx
    exact (hn o).watchers.bounded x.seq (List.mem_map_of_mem hx)
  | registration o r =>
    have hr : r ∈ m.registrationsOf o := h
    rw [Model.registrationsOf_eq] at hr
    exact (hn o).registrations.bounded r.id (List.mem_map_of_mem hr)

/-- An entry under an old number has been there since then. -/
theorem In.of_renews (h : e.In m') (hm : m.Renews m') (hle : e.number ≤ m.lastIdOf e.object) :
    e.In m := by
  rw [Model.lastIdOf_eq] at hle
  cases e with
  | connection o c =>
    have hc : c ∈ m'.connectionsOf o := h
    rw [Model.connectionsOf_eq] at hc
    show c ∈ m.connectionsOf o
    rw [Model.connectionsOf_eq]
    exact (hm.bindings o).connections c hc hle
  | watcher o x =>
    have hx : x ∈ m'.watchersOf o := h
    rw [Model.watchersOf_eq] at hx
    show x ∈ m.watchersOf o
    rw [Model.watchersOf_eq]
    exact (hm.bindings o).watchers x hx hle
  | registration o r =>
    have hr : r ∈ m'.registrationsOf o := h
    rw [Model.registrationsOf_eq] at hr
    show r ∈ m.registrationsOf o
    rw [Model.registrationsOf_eq]
    exact (hm.bindings o).registrations r hr hle

/-- Entries are entries of bindings. -/
theorem in_of_binding? (h : ∀ o, m'.binding? o = m.binding? o) (e : Entry) : e.In m' ↔ e.In m := by
  cases e with
  | connection o => simp only [In, Model.connectionsOf, h]
  | watcher o => simp only [In, Model.watchersOf, h]
  | registration o => simp only [In, Model.registrationsOf, h]

end Entry

/-- Whether none of the connections that a registration recorded is left. -/
def Registration.Undone (r : Registration) (m : Model) : Prop :=
  ∀ o, ∀ c ∈ m.connectionsOf o, (o, (⟨c.key, c.seq⟩ : SubscriptionId)) ∉ r.connections

namespace Model

variable {m m' : Model} {o : ObjectId}

/-- Whether numbers are in order, objects in objects exist, and what is recorded has numbers that
were given out. -/
structure Tidy (m : Model) : Prop where
  /-- The numbers are in order. -/
  numbered : m.Numbered
  /-- All that is referred to exists. -/
  whole : m.Whole
  /-- The numbers recorded in registrations were given out. -/
  recorded : ∀ o, ∀ r ∈ m.registrationsOf o, ∀ x ∈ r.connections, x.2.seq ≤ m.lastIdOf x.1

/-- A model without objects is tidy. -/
theorem tidy_empty : Tidy {} where
  numbered := numbered_empty
  whole _ _ h := by cases h
  recorded _ _ h := by cases h

/-- What a change makes of what is recorded: tables are renewed, the model stays tidy, and a
registration that is gone was undone. -/
structure Upholds (m m' : Model) : Prop where
  /-- The tables are renewed. -/
  renews : m.Renews m'
  /-- A tidy model stays tidy. -/
  tidy : m.Tidy → m'.Tidy
  /-- If a registration is gone, so are the connections that it recorded. -/
  undone : m.Tidy → ∀ o, ∀ r ∈ m.registrationsOf o, r ∈ m'.registrationsOf o ∨ r.Undone m'

/-- The numbers of connections were given out. -/
theorem Numbered.connection_le (hn : m.Numbered) (o : ObjectId) (c : Connection)
    (hc : c ∈ m.connectionsOf o) : c.seq ≤ m.lastIdOf o :=
  Entry.In.number_le (e := .connection o c) hc hn

/-- What was undone stays undone: its numbers are not given out again. -/
theorem undone_of_renews {r : Registration} (h : r.Undone m) (hm : m.Renews m')
    (hrecorded : ∀ x ∈ r.connections, x.2.seq ≤ m.lastIdOf x.1) : r.Undone m' :=
  fun o c hc hmem => h o c
    (Entry.In.of_renews (e := .connection o c) hc hm (hrecorded _ hmem)) hmem

namespace Upholds

/-- Any number of changes is one. -/
theorem steady : Steady Upholds where
  refl m := ⟨Renews.steady.refl m, id, fun _ _ _ hr => .inl hr⟩
  trans h h' := {
    renews := Renews.steady.trans h.renews h'.renews
    tidy := fun ht => h'.tidy (h.tidy ht)
    undone := fun ht o r hr => by
      rcases h.undone ht o r hr with hr' | hundone
      · exact h'.undone (h.tidy ht) o r hr'
      · refine .inr (undone_of_renews hundone h'.renews fun x hx => ?_)
        exact Nat.le_trans (ht.recorded o r hr x hx) (h.renews.lastIdOf x.1) }

/-- It is enough to look at changes of a tidy model. -/
theorem of_tidy (hr : m.Renews m') (h : m.Tidy → m.Upholds m') : m.Upholds m' :=
  ⟨hr, fun ht => (h ht).tidy ht, fun ht => (h ht).undone ht⟩

/-- A change that leaves the registrations as they are. -/
theorem of_kept (hr : m.Renews m') (hwhole : m.Whole → m'.Whole)
    (hregistrations : ∀ o, m'.registrationsOf o = m.registrationsOf o) : m.Upholds m' where
  renews := hr
  tidy ht := {
    numbered := hr.numbered ht.numbered
    whole := hwhole ht.whole
    recorded := fun o r hmem x hx => by
      rw [hregistrations] at hmem
      exact Nat.le_trans (ht.recorded o r hmem x hx) (hr.lastIdOf x.1) }
  undone _ o r hmem := by
    rw [hregistrations]
    exact .inl hmem

/-- A change that rewatches. -/
theorem of_rewatches (hr : m.Renews m') (h : m.Rewatches m') : m.Upholds m' :=
  .of_kept hr (fun hwhole => hwhole.rewatches h) h.registrationsOf

/-- A change of tables that writes nothing and registers nothing. -/
theorem of_tables (hr : m.Renews m') (hsize : m'.objects.size = m.objects.size)
    (hstore : ∀ o, m'.store o = m.store o)
    (hregistrations : ∀ o, m'.registrationsOf o = m.registrationsOf o) : m.Upholds m' :=
  .of_kept hr (fun hwhole o q hq => by
    rw [hstore] at hq
    exact Nat.lt_of_lt_of_eq (hwhole o q hq) hsize.symm) hregistrations

end Upholds

/-! ## Keeping up deep watches -/

/-- Building, moving and mending trees upholds what is recorded. -/
theorem upholds_watches : Watches Upholds where
  steady := Upholds.steady
  ensureBinding m o := .of_rewatches (renews_alters.ensureBinding m o) (rewatches_ensureBinding m o)
  watch m o w := .of_rewatches (renews_alters.watch m o w) (rewatches_watch m o w)
  unwatch m o seq := .of_rewatches (renews_alters.unwatch m o seq) (rewatches_unwatch m o seq)

/-- Replacing a tree upholds what is recorded. -/
theorem upholds_setTree (m : Model) (id : DeepId) (tree : Option WatchTree) :
    m.Upholds (m.setTree id tree) :=
  .of_rewatches (renews_alters.setTree m id tree) (rewatches_setTree m id tree)

/-- Holding other things upholds what is recorded. -/
theorem upholds_holds (m : Model) (holds : List Hold) : m.Upholds { m with holds } :=
  .of_rewatches (renews_holds m holds) (rewatches_holds m holds)

/-! ## Subscribing -/

/-- Connecting a handler upholds what is recorded. -/
theorem upholds_connect (m : Model) (o : ObjectId) (key : String) (handler : Handler) :
    m.Upholds (m.connect o key handler).2 :=
  have h := subscribes_connect m o key handler
  .of_tables (renews_alters.connect m o key handler) h.size h.store h.registrationsOf

/-- Disconnecting a handler upholds what is recorded. -/
theorem upholds_disconnect (m : Model) (o : ObjectId) (id : SubscriptionId) :
    m.Upholds (m.disconnect o id).2 :=
  have h := disconnects_disconnect m o id
  .of_tables (renews_alters.disconnect m o id) h.size h.store h.registrationsOf

/-- Registering connections whose numbers were given out upholds what is recorded. -/
theorem upholds_register (hb : m.isBound o = true)
    {connections : List (ObjectId × SubscriptionId)} (deep : Option DeepId)
    (hrecorded : ∀ x ∈ connections, x.2.seq ≤ m.lastIdOf x.1) :
    m.Upholds (m.register o connections deep).2 := by
  have hr := renews_alters.register m o connections deep
  have hregistrations := registrationsOf_register hb connections deep
  refine ⟨hr, fun ht => ⟨hr.numbered ht.numbered, fun p q hq => ?_, fun p r hmem x hx => ?_⟩,
    fun _ p r hmem => .inl ?_⟩
  · have hstore : (m.register o connections deep).2.store p = m.store p :=
      store_modifyBinding m o _ p
    rw [hstore] at hq
    exact Nat.lt_of_lt_of_eq (ht.whole p q hq) (size_modifyObject m o _).symm
  · -- What was recorded before has old numbers, and what is recorded now was given a number.
    refine Nat.le_trans ?_ (hr.lastIdOf x.1)
    rw [hregistrations] at hmem
    rcases List.mem_append.1 hmem with hmem | hmem
    · exact ht.recorded p r hmem x hx
    · split at hmem
      · obtain rfl := List.mem_singleton.1 hmem
        exact hrecorded x hx
      · cases hmem
  · rw [hregistrations]
    exact List.mem_append_left _ hmem

/-- Subscribing to several names from an object with a binding upholds what is recorded, also where
it fails. -/
theorem upholds_bindFields (hb : m.isBound o = true) (names : List ScopedName)
    (handler : ScopedName → Handler) : m.Upholds (bindFields o names handler m).2 := by
  refine .of_tidy (renews_alters.bindFields o names handler m) fun ht => ?_
  have hconnects : m.Renews (connectFields o handler names [] m).2 :=
    renews_alters.connectFields o handler names [] m
  rw [bindFields_eq]
  split
  · exact Upholds.steady.refl m
  · cases hc : connectFields o handler names [] m with
    | mk r m₁ =>
      rw [hc] at hconnects
      cases r with
      | error fault =>
        -- The connections that had been made are taken out again.
        have hsub := subscribes_of_refused ht.numbered.connection_le hc
        exact .of_tables hconnects hsub.size hsub.store hsub.registrationsOf
      | ok made =>
        obtain ⟨_, _, _, hsub, _⟩ := connectFields_of_ok hc
        refine Upholds.steady.trans
          (.of_tables hconnects hsub.size hsub.store hsub.registrationsOf) ?_
        exact upholds_register (hsub.isBound o hb) none
          (numbered_connectFields ht.whole hb (fun _ h => by cases h) hc)

/-- Setting up a deep watch from an object with a binding upholds what is recorded, also where it
fails. -/
theorem upholds_bindDeep (hb : m.isBound o = true) (n : ScopedName) (k : CallbackId) :
    m.Upholds (bindDeep o n k m).2 := by
  have hI := Upholds.steady
  refine .of_tidy (renews_alters.bindDeep o n k m) fun ht => ?_
  have hresolve : m.Renews (resolve o n m).2 := renews_alters.resolve o n m
  have hresolved {r : Except Fault ObjectId} {a : Model} (h : resolve o n m = (r, a)) :
      m.Upholds a := by
    have hsub := subscribes_resolve h
    rw [h] at hresolve
    exact .of_tables hresolve hsub.size hsub.store hsub.registrationsOf
  -- Any of the three steps may be the last one: to resolve, to add the watch, to build its tree.
  have hadded (a : Model) (deep : DeepWatch) : a.Upholds (a.addDeep deep) :=
    .of_tables (renews_alters.addDeep a deep) rfl (fun _ => rfl) fun _ => rfl
  have hretargeted {a b : Model} {id : DeepId} {v : Value} {r : Except Fault Unit}
      (h : retarget id v a = (r, b)) : a.Upholds b :=
    (upholds_watches.retarget (fun m tree => upholds_setTree m id tree) v).of_run h
  cases hbind : bindDeep o n k m with
  | mk r m' =>
    cases setUp_of_bindDeep hbind with
    | unresolved hres => exact hresolved hres
    | refused hres hret =>
      exact hI.trans (hI.trans (hresolved hres) (hadded _ _)) (hretargeted hret)
    | @bound owner a b c seq hres hret hconnected =>
      obtain ⟨rfl, rfl⟩ := Prod.mk.inj hconnected
      have hb' : b.isBound o = true :=
        (hretargeted hret).renews.isBound o ((subscribes_resolve hres).isBound o hb)
      have howner' : a.isBound owner = true := isBound_of_resolve ht.whole hb hres
      have howner : b.isBound owner = true := (hretargeted hret).renews.isBound owner howner'
      have hsub := subscribes_connect b owner n.name (.follow a.deeps.size)
      refine hI.trans (hI.trans (hI.trans (hI.trans (hresolved hres) (hadded _ _))
        (hretargeted hret)) (upholds_connect b owner n.name _))
        (upholds_register (hsub.isBound o hb') _ fun x hx => ?_)
      obtain rfl := List.mem_singleton.1 hx
      exact (hsub.fresh owner _ (mem_newConnection.2 ⟨⟨rfl, howner⟩, rfl⟩)).2

/-- Every way to subscribe from an object with a binding upholds what is recorded. -/
theorem upholds_binds (hb : m.isBound o = true) : Binds Upholds o m where
  connect := upholds_connect m o
  watch := upholds_watches.watch m o
  bindFields := upholds_bindFields hb
  bindDeep := upholds_bindDeep hb

/-! ## Releasing -/

/-- Undoing a registration takes out the connections that it recorded, and no others. -/
theorem connectionsOf_undo (m : Model) (r : Registration) (o : ObjectId) :
    (m.undo r).connectionsOf o = (m.connectionsOf o).filter fun c =>
      (o, (⟨c.key, c.seq⟩ : SubscriptionId)) ∉ r.connections := by
  have hd := disconnects_disconnectAll m r.connections
  cases hdeep : r.deep with
  | none =>
    rw [undo_of_none hdeep]
    exact hd.connectionsOf o
  | some d =>
    rw [undo_of_some hdeep]
    exact ((rewatches_dropTree _ d).connectionsOf o).trans (hd.connectionsOf o)

/-- What has been undone is undone. -/
theorem undone_undo (m : Model) (r : Registration) : r.Undone (m.undo r) := by
  intro o c hc
  rw [connectionsOf_undo] at hc
  exact of_decide_eq_true (List.mem_filter.1 hc).2

/-- Each of several registrations that have been undone is undone. -/
theorem undone_foldl_undo {rs : List Registration} {r : Registration} (hr : r ∈ rs) (m : Model) :
    r.Undone (rs.foldl undo m) := by
  -- What was taken out does not come back when the others are undone.
  have hsub (rs : List Registration) (m : Model) (o : ObjectId) :
      (rs.foldl undo m).connectionsOf o ⊆ m.connectionsOf o := by
    induction rs generalizing m with
    | nil => exact fun _ h => h
    | cons r rs ih =>
      refine fun c hc => ?_
      have hc' := ih (m.undo r) hc
      rw [connectionsOf_undo] at hc'
      exact (List.mem_filter.1 hc').1
  induction rs generalizing m with
  | nil => cases hr
  | cons r' rs ih =>
    rcases List.mem_cons.1 hr with rfl | hr
    · exact fun o c hc => undone_undo m r o c (hsub rs _ o hc)
    · exact ih hr (m.undo r')

/-- A change that undoes the registrations that it takes out. -/
theorem Upholds.of_undone (hr : m.Renews m') (hsize : m'.objects.size = m.objects.size)
    (hstore : ∀ o, m'.store o = m.store o)
    (hsub : ∀ o, m'.registrationsOf o ⊆ m.registrationsOf o)
    (hundone : m.Numbered → ∀ o, ∀ r ∈ m.registrationsOf o,
      r ∈ m'.registrationsOf o ∨ r.Undone m') : m.Upholds m' where
  renews := hr
  tidy ht := {
    numbered := hr.numbered ht.numbered
    whole := fun o q hq => by
      rw [hstore] at hq
      exact Nat.lt_of_lt_of_eq (ht.whole o q hq) hsize.symm
    recorded := fun o r hmem x hx =>
      Nat.le_trans (ht.recorded o r (hsub o hmem) x hx) (hr.lastIdOf x.1) }
  undone ht := hundone ht.numbered

/-- Undoing a registration writes nothing. -/
theorem store_undo (m : Model) (r : Registration) :
    (m.undo r).objects.size = m.objects.size ∧ ∀ o, (m.undo r).store o = m.store o := by
  have hd := disconnects_disconnectAll m r.connections
  cases hdeep : r.deep with
  | none =>
    rw [undo_of_none hdeep]
    exact ⟨hd.size, hd.store⟩
  | some d =>
    rw [undo_of_some hdeep]
    have hr := rewatches_dropTree (m.disconnectAll r.connections) d
    exact ⟨hr.size.trans hd.size, fun o => (hr.store o).trans (hd.store o)⟩

/-- The registration that is found under the number of one is that one. -/
theorem eq_of_registration? (hn : m.Numbered) {r r' : Registration}
    (hr : r ∈ m.registrationsOf o) (h : m.registration? o r.id = some r') : r' = r := by
  rw [registration?_eq] at h
  have hmem := List.mem_of_find?_eq_some h
  have hid : r'.id = r.id := by simpa using List.find?_some h
  rw [registrationsOf_eq] at hr hmem
  exact (hn o).registrations.eq_of_number hmem hr hid

/-- Releasing a registration upholds what is recorded. -/
theorem upholds_unbind (m : Model) (o : ObjectId) (id : Nat) : m.Upholds (m.unbind o id).2 := by
  have hr := renews_alters.unbind m o id
  cases hreg : m.registration? o id with
  | none =>
    rw [unbind_of_none hreg]
    exact Upholds.steady.refl m
  | some r =>
    rw [unbind_of_some hreg] at hr ⊢
    have hstore := store_undo (m.modifyBinding o (·.unregister id)) r
    refine .of_undone hr (hstore.1.trans (size_modifyObject m o _))
      (fun p => (hstore.2 p).trans (store_modifyBinding m o _ p)) (fun p r' hr' => ?_)
      fun hn p r' hr' => ?_
    · rw [registrationsOf_undo] at hr'
      exact (mem_registrationsOf_unregister.1 hr').1
    · by_cases hthis : p = o ∧ r'.id = id
      · obtain ⟨rfl, rfl⟩ := hthis
        obtain rfl := eq_of_registration? hn hr' hreg
        exact .inr (undone_undo _ r)
      · rw [registrationsOf_undo]
        exact .inl (mem_registrationsOf_unregister.2 ⟨hr', hthis⟩)

/-- Releasing all that is bound to an object upholds what is recorded. -/
theorem upholds_unbindAll (m : Model) (o : ObjectId) : m.Upholds (m.unbindAll o) := by
  have hfold (rs : List Registration) (m : Model) : (rs.foldl undo m).objects.size =
      m.objects.size ∧ ∀ p, (rs.foldl undo m).store p = m.store p := by
    induction rs generalizing m with
    | nil => exact ⟨rfl, fun _ => rfl⟩
    | cons r rs ih =>
      have hstep := store_undo m r
      have hrest := ih (m.undo r)
      exact ⟨hrest.1.trans hstep.1, fun p => (hrest.2 p).trans (hstep.2 p)⟩
  refine .of_undone (renews_alters.unbindAll m o) ?_ (fun p => ?_) (fun p r hr => ?_)
    fun _ p r hr => ?_
  · rw [unbindAll_eq]
    refine (size_modifyObject _ o _).trans ((hfold _ _).1.trans (size_modifyObject m o _))
  · rw [unbindAll_eq, store_modifyBinding]
    exact ((hfold _ _).2 p).trans (store_modifyBinding m o _ p)
  · rw [registrationsOf_unbindAll] at hr
    split at hr
    · cases hr
    · exact hr
  · rw [registrationsOf_unbindAll]
    split
    · rename_i hp
      subst hp
      -- The handlers of the object go after that, which leaves even less connected.
      refine .inr fun q c hc => undone_foldl_undo hr
        (m.modifyBinding p fun b => { b with registrations := [] }) q c ?_
      rw [unbindAll_eq] at hc
      exact (sublist_modifyBinding (·.connections) Binding.sheds_handlers.connections _ p q).subset
        hc
    · exact .inl hr

/-! ## Making and changing objects -/

/-- Making an object of values that exist upholds what is recorded. -/
theorem upholds_add {s : Store} (hs : ∀ q, .object q ∈ s.values → q < m.objects.size) :
    m.Upholds (m.add s).2 := by
  refine .of_kept (.add m s) (fun hwhole p q hq => ?_) fun p => ?_
  · rw [size_add]
    rw [store_add] at hq
    split at hq
    · exact Nat.lt_succ_of_lt (hs q hq)
    · exact Nat.lt_succ_of_lt (hwhole p q hq)
  · unfold registrationsOf
    rw [binding?_add]

/-- Replacing a content by one of values that exist upholds what is recorded. -/
theorem upholds_setStore {s : Store} (hs : ∀ q, .object q ∈ s.values → q < m.objects.size) :
    m.Upholds (m.setStore o s) := by
  refine .of_kept (.setStore m o s) (fun hwhole p q hq => ?_)
    (elim_setStore (·.registrations) [] m o s)
  have hsize : (m.setStore o s).objects.size = m.objects.size := size_modifyObject m o _
  rw [hsize]
  rw [store_setStore] at hq
  split at hq
  · exact hs q hq
  · exact hwhole p q hq

/-- Linking an object to another one upholds what is recorded. -/
theorem upholds_setParent {parent : Option ObjectId}
    (h : ∀ p, parent = some p → m.isBound p = true) (o : ObjectId) :
    m.Upholds (Model.setParent o parent m).2 := by
  refine .of_tidy (.setParent h o) fun _ => ?_
  have hr := Renews.setParent h o
  unfold Model.setParent at hr ⊢
  split
  · exact Upholds.steady.refl m
  · rename_i hne
    rw [if_neg hne] at hr
    exact .of_tables hr (size_modifyObject m o _) (store_modifyBinding m o _)
      (elim_modifyBinding (·.registrations) (fun _ => by rfl) [] m o)

/-- Giving an object its first binding upholds what is recorded. -/
theorem upholds_bind (v : Value) (keys : Option (List String)) :
    m.Upholds (Model.bind v keys m).2 := by
  have hr := Renews.bind v keys m
  unfold Model.bind at hr ⊢
  cases ho : v.object? with
  | none => exact Upholds.steady.refl m
  | some o =>
    rw [ho] at hr
    dsimp only at hr ⊢
    rw [Edit.bind_of_ok (e := get) rfl] at hr ⊢
    by_cases hb : m.isBound o = true
    · rw [if_pos hb]
      exact Upholds.steady.refl m
    · rw [if_neg hb] at hr ⊢
      have hnone : m.binding? o = none := Option.not_isSome_iff_eq_none.1 hb
      refine .of_tables hr (size_modifyObject m o _) (fun p => ?_) fun p => ?_
      · exact read_modifyObject (fun x => (x.map DataObject.store).getD default)
          (fun _ => by rfl) m o p
      · -- The new binding has no registrations, and there was none that could have had some.
        show (m.modifyObject o fun x => { x with binding := some { keys } }).registrationsOf p = _
        unfold registrationsOf
        rw [binding?_modifyObject]
        split
        · rename_i h
          rw [h.1, hnone]
          rfl
        · rfl

/-! ## Data made into objects -/

mutual

/-- Making objects of data upholds what is recorded, and what is made exists. -/
theorem upholds_build (named : String → Value) (d : Datum) (m : Model)
    (hnamed : ∀ s q, named s = .object q → q < m.objects.size) :
    m.Upholds (build named d m).2 ∧
      ∀ q, (build named d m).1 = .object q → q < (build named d m).2.objects.size := by
  cases d with
  | null | bool | number | text | function => exact ⟨Upholds.steady.refl m, nofun⟩
  | named s => exact ⟨Upholds.steady.refl m, hnamed s⟩
  | list items =>
    obtain ⟨hupholds, hexist⟩ := upholds_buildItems named items m hnamed
    refine ⟨Upholds.steady.trans hupholds (upholds_add fun q hq => hexist q hq), fun q hq => ?_⟩
    obtain rfl := Value.object.inj hq
    exact Nat.lt_of_lt_of_eq (Nat.lt_succ_self _) (size_add _ _).symm
  | map members =>
    obtain ⟨hupholds, hexist⟩ := upholds_buildMembers named members m hnamed
    refine ⟨Upholds.steady.trans hupholds (upholds_add fun q hq => ?_), fun q hq => ?_⟩
    · obtain ⟨e, he, heq⟩ := List.mem_map.1 hq
      exact hexist e (Dict.mem_entries_ofList he) q heq
    · obtain rfl := Value.object.inj hq
      exact Nat.lt_of_lt_of_eq (Nat.lt_succ_self _) (size_add _ _).symm

/-- The items of a list, one after the other. -/
theorem upholds_buildItems (named : String → Value) (items : List Datum) (m : Model)
    (hnamed : ∀ s q, named s = .object q → q < m.objects.size) :
    m.Upholds (buildItems named items m).2 ∧
      ∀ q, .object q ∈ (buildItems named items m).1 →
        q < (buildItems named items m).2.objects.size := by
  cases items with
  | nil => exact ⟨Upholds.steady.refl m, nofun⟩
  | cons item items =>
    obtain ⟨hfirst, hexist⟩ := upholds_build named item m hnamed
    obtain ⟨hrest, hexist'⟩ := upholds_buildItems named items (build named item m).2
      fun s q hq => Nat.lt_of_lt_of_le (hnamed s q hq) hfirst.renews.size
    refine ⟨Upholds.steady.trans hfirst hrest, fun q hq => ?_⟩
    rcases List.mem_cons.1 hq with hq | hq
    · exact Nat.lt_of_lt_of_le (hexist q hq.symm) hrest.renews.size
    · exact hexist' q hq

/-- The members of a map, one after the other. -/
theorem upholds_buildMembers (named : String → Value) (members : List (String × Datum)) (m : Model)
    (hnamed : ∀ s q, named s = .object q → q < m.objects.size) :
    m.Upholds (buildMembers named members m).2 ∧
      ∀ e ∈ (buildMembers named members m).1, ∀ q, e.2 = .object q →
        q < (buildMembers named members m).2.objects.size := by
  cases members with
  | nil => exact ⟨Upholds.steady.refl m, nofun⟩
  | cons member members =>
    obtain ⟨key, item⟩ := member
    obtain ⟨hfirst, hexist⟩ := upholds_build named item m hnamed
    obtain ⟨hrest, hexist'⟩ := upholds_buildMembers named members (build named item m).2
      fun s q hq => Nat.lt_of_lt_of_le (hnamed s q hq) hfirst.renews.size
    refine ⟨Upholds.steady.trans hfirst hrest, fun e he q hq => ?_⟩
    rcases List.mem_cons.1 he with rfl | he
    · exact Nat.lt_of_lt_of_le (hexist q hq) hrest.renews.size
    · exact hexist' e he q hq

end

mutual

/-- Making objects of data does no more than add objects. -/
theorem build_within {I : Model → Model → Prop} (hI : Steady I) (hadd : ∀ m s, I m (m.add s).2)
    (named : String → Value) (d : Datum) (m : Model) : I m (build named d m).2 := by
  cases d with
  | null | bool | number | text | function | named => exact hI.refl m
  | list items => exact hI.trans (buildItems_within hI hadd named items m) (hadd _ _)
  | map members => exact hI.trans (buildMembers_within hI hadd named members m) (hadd _ _)

/-- The items of a list, one after the other. -/
theorem buildItems_within {I : Model → Model → Prop} (hI : Steady I)
    (hadd : ∀ m s, I m (m.add s).2) (named : String → Value) (items : List Datum) (m : Model) :
    I m (buildItems named items m).2 := by
  cases items with
  | nil => exact hI.refl m
  | cons item items =>
    exact hI.trans (build_within hI hadd named item m) (buildItems_within hI hadd named items _)

/-- The members of a map, one after the other. -/
theorem buildMembers_within {I : Model → Model → Prop} (hI : Steady I)
    (hadd : ∀ m s, I m (m.add s).2) (named : String → Value) (members : List (String × Datum))
    (m : Model) : I m (buildMembers named members m).2 := by
  cases members with
  | nil => exact hI.refl m
  | cons member members =>
    exact hI.trans (build_within hI hadd named member.2 m)
      (buildMembers_within hI hadd named members _)

end

/-- Making objects of a document does no more than add objects. -/
theorem ofJson_within {I : Model → Model → Prop} (hI : Steady I) (hadd : ∀ m s, I m (m.add s).2)
    (json : Json) (m : Model) : I m (m.ofJson json).2 :=
  build_within hI hadd _ _ m

/-- Making objects of a document upholds what is recorded. -/
theorem upholds_ofJson (json : Json) (m : Model) : m.Upholds (m.ofJson json).2 :=
  (upholds_build (fun _ => .null) json.toDatum m nofun).1

end Model

end LiveScope
