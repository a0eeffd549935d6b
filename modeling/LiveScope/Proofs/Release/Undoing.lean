import LiveScope.Proofs.Release.Ownership

/-!
# What releasing takes away

`Model.Removes` says that a model lacks exactly what tells the functions in a set, and whatever
belongs to some objects, and that everything else is where it was. Releasing a registration removes
what tells the function it covers (`Model.removes_unbind`); releasing all that is bound to an object
removes that for each of its registrations and empties its tables (`Model.removes_unbindAll`).
-/

namespace LiveScope

namespace Model

variable {m m' m'' : Model} {known gone : CallbackId → Prop} {k : CallbackId}

/-- `m'` lacks exactly what tells the functions in `gone`, what belongs to the objects in `own` and
the registrations that are `undone`; the rest is in the same order, and what is not told of changes
is the same. -/
structure Removes (own : ObjectId → Prop) (undone : ObjectId → Registration → Prop)
    (gone : CallbackId → Prop) (m m' : Model) : Prop where
  /-- There are the same objects. -/
  size : m'.objects.size = m.objects.size
  /-- All content is the same. -/
  store : ∀ o, m'.store o = m.store o
  /-- The links are the same. -/
  linkOf : ∀ o, m'.linkOf o = m.linkOf o
  /-- Changes of the same keys are told of. -/
  keysOf : ∀ o, m'.keysOf o = m.keysOf o
  /-- The connections that are left are in the same order. -/
  connections : ∀ o, (m'.connectionsOf o).Sublist (m.connectionsOf o)
  /-- Those are left that do not belong to one of the objects and do not tell one of the functions.
  -/
  handlers : ∀ o, ∀ c ∈ m.connectionsOf o,
    c ∈ m'.connectionsOf o ↔ ¬ own o ∧ ∀ k, m.handlerCallback c.handler = some k → ¬ gone k
  /-- The watchers that are left are in the same order. -/
  watchersOf : ∀ o, (m'.watchersOf o).Sublist (m.watchersOf o)
  /-- Those are left that do not belong to one of the objects and do not tell one of the functions.
  -/
  watchers : ∀ o, ∀ x ∈ m.watchersOf o,
    x ∈ m'.watchersOf o ↔ ¬ own o ∧ ∀ k, m.watchCallback x.watch = some k → ¬ gone k
  /-- The registrations that are left are in the same order. -/
  registrationsOf : ∀ o, (m'.registrationsOf o).Sublist (m.registrationsOf o)
  /-- Those are left that are not undone. -/
  registrations : ∀ o, ∀ r ∈ m.registrationsOf o, r ∈ m'.registrationsOf o ↔ ¬ undone o r
  /-- A deep watch that tells none of the functions is the same. -/
  deep? : ∀ d deep, m.deep? d = some deep → ¬ gone deep.callback → m'.deep? d = some deep

/-! ## What is spared -/

/-- `m'` has lost entries of the tables of `m`, all of which told functions in `gone` or belonged to
objects in `own`. -/
structure Spares (own : ObjectId → Prop) (gone : CallbackId → Prop) (m m' : Model) : Prop where
  /-- There are the same objects. -/
  size : m'.objects.size = m.objects.size
  /-- All content is the same. -/
  store : ∀ o, m'.store o = m.store o
  /-- The links are the same. -/
  linkOf : ∀ o, m'.linkOf o = m.linkOf o
  /-- Changes of the same keys are told of. -/
  keysOf : ∀ o, m'.keysOf o = m.keysOf o
  /-- Numbers that were given out stay given out. -/
  lastIdOf : ∀ o, m.lastIdOf o ≤ m'.lastIdOf o
  /-- Handlers tell the same functions. -/
  handlerCallback : ∀ handler, m'.handlerCallback handler = m.handlerCallback handler
  /-- The connections that are left are in the same order. -/
  connections : ∀ o, (m'.connectionsOf o).Sublist (m.connectionsOf o)
  /-- A connection that belongs to none of the objects and tells none of the functions is left. -/
  handlers : ∀ o, ∀ c ∈ m.connectionsOf o, ¬ own o →
    (∀ k, m.handlerCallback c.handler = some k → ¬ gone k) → c ∈ m'.connectionsOf o
  /-- The watchers that are left are in the same order. -/
  watchersOf : ∀ o, (m'.watchersOf o).Sublist (m.watchersOf o)
  /-- A watcher that belongs to none of the objects and tells none of the functions is left. -/
  watchers : ∀ o, ∀ x ∈ m.watchersOf o, ¬ own o →
    (∀ k, m.watchCallback x.watch = some k → ¬ gone k) → x ∈ m'.watchersOf o
  /-- A deep watch that tells none of the functions is the same. -/
  deep? : ∀ d deep, m.deep? d = some deep → ¬ gone deep.callback → m'.deep? d = some deep

namespace Spares

variable {own : ObjectId → Prop}

/-- Deep watches that keep their functions do so for watchers, too. -/
theorem watchCallback (h : Spares own gone m m') (watch : Watch) :
    m'.watchCallback watch = m.watchCallback watch := by
  cases watch with
  | report => rfl
  | mend d => exact h.handlerCallback (.follow d)

/-- Any number of such changes is one. -/
theorem steady (own : ObjectId → Prop) (gone : CallbackId → Prop) : Steady (Spares own gone) where
  refl _ := ⟨rfl, fun _ => rfl, fun _ => rfl, fun _ => rfl, fun _ => Nat.le_refl _, fun _ => rfl,
    fun _ => .refl _, fun _ _ h _ _ => h, fun _ => .refl _, fun _ _ h _ _ => h, fun _ _ h _ => h⟩
  trans h h' := {
    size := h'.size.trans h.size
    store := fun o => (h'.store o).trans (h.store o)
    linkOf := fun o => (h'.linkOf o).trans (h.linkOf o)
    keysOf := fun o => (h'.keysOf o).trans (h.keysOf o)
    lastIdOf := fun o => Nat.le_trans (h.lastIdOf o) (h'.lastIdOf o)
    handlerCallback := fun handler => (h'.handlerCallback handler).trans (h.handlerCallback handler)
    connections := fun o => (h'.connections o).trans (h.connections o)
    handlers := fun o c hc hown hgone =>
      h'.handlers o c (h.handlers o c hc hown hgone) hown (by rwa [h.handlerCallback])
    watchersOf := fun o => (h'.watchersOf o).trans (h.watchersOf o)
    watchers := fun o x hx hown hgone =>
      h'.watchers o x (h.watchers o x hx hown hgone) hown (by rwa [h.watchCallback])
    deep? := fun d deep hd hgone => h'.deep? d deep (h.deep? d deep hd hgone) hgone }

/-- What is spared stays, and all that tells a function is gone if nothing tells it any more. -/
theorem removes (h : Spares own gone m m') {undone : ObjectId → Registration → Prop}
    (hdead : ∀ k, gone k → m'.Dead k)
    (hown : ∀ o, own o → m'.connectionsOf o = [] ∧ m'.watchersOf o = [])
    (hsub : ∀ o, (m'.registrationsOf o).Sublist (m.registrationsOf o))
    (hundone : ∀ o, ∀ r ∈ m.registrationsOf o, r ∈ m'.registrationsOf o ↔ ¬ undone o r) :
    Removes own undone gone m m' where
  size := h.size
  store := h.store
  linkOf := h.linkOf
  keysOf := h.keysOf
  connections := h.connections
  handlers o c hc := by
    refine ⟨fun hc' => ⟨fun ho => ?_, fun k hk hgone => ?_⟩, fun ⟨ho, hgone⟩ =>
      h.handlers o c hc ho hgone⟩
    · rw [(hown o ho).1] at hc'
      cases hc'
    · rw [← h.handlerCallback] at hk
      exact (hdead k hgone).handlers o c hc' hk
  watchersOf := h.watchersOf
  watchers o x hx := by
    refine ⟨fun hx' => ⟨fun ho => ?_, fun k hk hgone => ?_⟩, fun ⟨ho, hgone⟩ =>
      h.watchers o x hx ho hgone⟩
    · rw [(hown o ho).2] at hx'
      cases hx'
    · rw [← h.watchCallback] at hk
      exact (hdead k hgone).watchers o x hx' hk
  registrationsOf := hsub
  registrations := hundone
  deep? := h.deep?

end Spares

/-! ## Connections that are taken out -/

/-- `m'` lacks the given connections and else is like `m`. -/
structure Disconnects (gone : List (ObjectId × SubscriptionId)) (m m' : Model) : Prop where
  /-- There are the same objects. -/
  size : m'.objects.size = m.objects.size
  /-- The deep watches are the same. -/
  deeps : m'.deeps = m.deeps
  /-- All content is the same. -/
  store : ∀ o, m'.store o = m.store o
  /-- The watchers are the same. -/
  watchersOf : ∀ o, m'.watchersOf o = m.watchersOf o
  /-- The registrations are the same. -/
  registrationsOf : ∀ o, m'.registrationsOf o = m.registrationsOf o
  /-- The links are the same. -/
  linkOf : ∀ o, m'.linkOf o = m.linkOf o
  /-- Changes of the same keys are told of. -/
  keysOf : ∀ o, m'.keysOf o = m.keysOf o
  /-- The last numbers given out are the same. -/
  lastIdOf : ∀ o, m'.lastIdOf o = m.lastIdOf o
  /-- The connections are the same but for those given. -/
  connectionsOf : ∀ o, m'.connectionsOf o =
    (m.connectionsOf o).filter fun c => (o, (⟨c.key, c.seq⟩ : SubscriptionId)) ∉ gone

/-- Taking out one connection. -/
theorem disconnects_disconnect (m : Model) (o : ObjectId) (id : SubscriptionId) :
    Disconnects [(o, id)] m (m.disconnect o id).2 where
  size := size_modifyObject m o _
  deeps := rfl
  store := store_modifyBinding m o _
  watchersOf := elim_modifyBinding (·.watchers) (fun _ => by rfl) [] m o
  registrationsOf := elim_modifyBinding (·.registrations) (fun _ => by rfl) [] m o
  linkOf := linkOf_modifyBinding (fun _ => by rfl) m o
  keysOf := keysOf_modifyBinding (fun _ => by rfl) m o
  lastIdOf := elim_modifyBinding (·.lastId) (fun _ => by rfl) 0 m o
  connectionsOf p := by
    unfold Model.connectionsOf disconnect
    rw [binding?_modifyBinding]
    split
    · rename_i hp
      subst hp
      cases m.binding? p with
      | none => rfl
      | some b =>
        show b.connections.filter _ = b.connections.filter _
        refine List.filter_congr fun c _ => ?_
        rw [Bool.eq_iff_iff]
        obtain ⟨key, seq⟩ := id
        simp
    · rename_i hp
      symm
      refine List.filter_eq_self.2 fun c _ => ?_
      simp [hp]

/-- Taking out several connections. -/
theorem disconnects_disconnectAll (m : Model) (gone : List (ObjectId × SubscriptionId)) :
    Disconnects gone m (m.disconnectAll gone) := by
  unfold disconnectAll
  induction gone generalizing m with
  | nil =>
    refine ⟨rfl, rfl, fun _ => rfl, fun _ => rfl, fun _ => rfl, fun _ => rfl, fun _ => rfl,
      fun _ => rfl, fun o => ?_⟩
    exact (List.filter_eq_self.2 fun c _ => by simp).symm
  | cons x gone ih =>
    obtain ⟨p, id⟩ := x
    have h := disconnects_disconnect m p id
    have h' := ih (m.disconnect p id).2
    refine ⟨h'.size.trans h.size, h'.deeps.trans h.deeps, fun o => (h'.store o).trans (h.store o),
      fun o => (h'.watchersOf o).trans (h.watchersOf o),
      fun o => (h'.registrationsOf o).trans (h.registrationsOf o),
      fun o => (h'.linkOf o).trans (h.linkOf o), fun o => (h'.keysOf o).trans (h.keysOf o),
      fun o => (h'.lastIdOf o).trans (h.lastIdOf o), fun o => ?_⟩
    refine (h'.connectionsOf o).trans ?_
    rw [h.connectionsOf, List.filter_filter]
    refine List.filter_congr fun c _ => ?_
    rw [Bool.eq_iff_iff]
    simp [and_comm]

/-- Taking out connections subscribes nothing. -/
theorem Disconnects.eases {gone : List (ObjectId × SubscriptionId)} (h : Disconnects gone m m') :
    Eases known m m' := by
  refine .fewer (Nat.le_of_eq h.size.symm) (fun hwhole o q hq => ?_) h.deeps (fun o => ?_)
    (fun o => ?_) (fun o => ?_) fun o => Nat.le_of_eq (h.lastIdOf o).symm
  · rw [h.store] at hq
    rw [h.size]
    exact hwhole o q hq
  · rw [h.connectionsOf]
    exact List.filter_sublist
  · rw [h.watchersOf]
  · rw [h.registrationsOf]

/-! ## One registration -/

/-- Taking down the tree of a deep watch gives up all its nodes. -/
theorem regrown_dropTree (m : Model) (id : DeepId) :
    Regrown id [] (m.watched id) [] m (m.dropTree id) where
  swapped := swapped_dropTree m id
  others d hd := (tree?_dropTree m id d).trans (if_neg hd)
  before := .refl _
  after := by
    unfold watched
    rw [tree?_dropTree, if_pos rfl]
    exact .refl _
  keyed t ht := by
    rw [tree?_dropTree, if_pos rfl] at ht
    cases ht

/-- Taking down a tree leaves the other deep watches. -/
theorem deep?_dropTree (m : Model) {id d : DeepId} (hd : d ≠ id) :
    (m.dropTree id).deep? d = m.deep? d := by
  unfold dropTree
  rw [deep?_setTree, if_neg hd]
  unfold deep?
  cases m.tree? id with
  | none => rfl
  | some tree => exact congrArg (·[d]?) (deeps_detach m tree)

/-- Of the watchers of an object those that mend a deep watch are gone when its tree is taken
down. -/
theorem mem_watchersOf_dropTree (h : m.Orderly) (id : DeepId) {o : ObjectId} {x : Watcher} :
    x ∈ (m.dropTree id).watchersOf o ↔ x ∈ m.watchersOf o ∧ x.watch ≠ .mend id := by
  obtain ⟨new, hnew, _, hmem⟩ := (swapped_dropTree m id).watchersOf o
  have hnil : new = [] := List.eq_nil_iff_forall_not_mem.2 fun x hx => by cases ((hmem x).1 hx).2
  rw [hnew, hnil, List.append_nil, List.mem_filter]
  refine and_congr_right fun hx => ?_
  rw [decide_eq_true_eq, not_iff_not]
  exact ⟨fun hnode => (h.numbered id _ hnode).2 x hx rfl, fun hmend => h.covered o x hx id hmend⟩

/-- Without a deep watch undoing a registration only disconnects. -/
theorem undo_of_none {r : Registration} (h : r.deep = none) :
    m.undo r = m.disconnectAll r.connections := by
  unfold undo
  rw [h]
  rfl

/-- With a deep watch undoing a registration takes down its tree, too. -/
theorem undo_of_some {r : Registration} {d : DeepId} (h : r.deep = some d) :
    m.undo r = (m.disconnectAll r.connections).dropTree d := by
  unfold undo
  rw [h]
  rfl

/-- Undoing a registration subscribes nothing. -/
theorem eases_undo (m : Model) (r : Registration) : Eases known m (m.undo r) := by
  have hdisconnects := disconnects_disconnectAll m r.connections
  cases hdeep : r.deep with
  | none =>
    rw [undo_of_none hdeep]
    exact hdisconnects.eases
  | some d =>
    rw [undo_of_some hdeep]
    refine (Eases.steady known).trans hdisconnects.eases ?_
    exact .regrown (regrown_dropTree _ d) fun x hx => by cases hx

/-- Undoing a registration takes only from the function that it covers. -/
theorem spares_undo {own : ObjectId → Prop} {r : Registration} (h : m.Orderly)
    (hcovers : m.Covers r k) (hgone : gone k) : Spares own gone m (m.undo r) := by
  -- First the connections of the registration go, and then the tree of its deep watch.
  have hd := disconnects_disconnectAll m r.connections
  have hfirst : Spares own gone m (m.disconnectAll r.connections) := by
    refine ⟨hd.size, hd.store, hd.linkOf, hd.keysOf, fun o => Nat.le_of_eq (hd.lastIdOf o).symm,
      fun handler => ?_, fun o => ?_, fun o c hc _ hkept => ?_, fun o => ?_, fun o x hx _ _ => ?_,
      fun d deep hdeep _ => ?_⟩
    · unfold Model.handlerCallback Model.deep?
      rw [hd.deeps]
    · rw [hd.connectionsOf]
      exact List.filter_sublist
    · rw [hd.connectionsOf]
      refine List.mem_filter.2 ⟨hc, decide_eq_true fun hmem => ?_⟩
      exact hkept k ((hcovers.handlers o c hc).2 hmem) hgone
    · rw [hd.watchersOf]
    · rwa [hd.watchersOf]
    · unfold Model.deep?
      rwa [hd.deeps]
  cases hdeep : r.deep with
  | none =>
    rw [undo_of_none hdeep]
    exact hfirst
  | some d =>
    rw [undo_of_some hdeep]
    have horderly := (hd.eases h (knows_all m)).orderly
    have hcallback := (hfirst.handlerCallback (.follow d)).trans ((hcovers.deep d).2 hdeep)
    refine (Spares.steady own gone).trans hfirst ?_
    have hr := rewatches_dropTree (m.disconnectAll r.connections) d
    refine ⟨hr.size, hr.store, hr.linkOf, hr.keysOf, hr.lastIdOf,
      handlerCallback_of_rewatches hr, fun o => ?_, fun o c hc _ _ => ?_, fun o => ?_,
      fun o x hx _ hkept => ?_, fun d' deep hdeep' hkept => ?_⟩
    · rw [hr.connectionsOf]
    · rwa [hr.connectionsOf]
    · obtain ⟨new, hnew, _, hmem⟩ :=
        (swapped_dropTree (m.disconnectAll r.connections) d).watchersOf o
      have hnil : new = [] :=
        List.eq_nil_iff_forall_not_mem.2 fun x hx => by cases ((hmem x).1 hx).2
      rw [hnew, hnil, List.append_nil]
      exact List.filter_sublist
    · refine (mem_watchersOf_dropTree horderly d).2 ⟨hx, fun hmend => ?_⟩
      rw [hmend] at hkept
      exact hkept k hcallback hgone
    · by_cases hd' : d' = d
      · -- The deep watch itself tells the function that is covered.
        subst hd'
        rw [handlerCallback_follow hdeep'] at hcallback
        rw [Option.some.inj hcallback] at hkept
        exact absurd hgone hkept
      · rw [deep?_dropTree _ hd']
        exact hdeep'

/-- Nothing tells the function that a registration covers when it has been undone. -/
theorem dead_undo {r : Registration} (h : m.Orderly) (hcovers : m.Covers r k) :
    (m.undo r).Dead k := by
  have hd := disconnects_disconnectAll m r.connections
  have heased := hd.eases h (knows_all m)
  have hcovers' := heased.persists.covers r k trivial hcovers
  have hhandlers : ∀ o, ∀ c ∈ (m.disconnectAll r.connections).connectionsOf o,
      (m.disconnectAll r.connections).handlerCallback c.handler ≠ some k := by
    intro o c hc htells
    rw [hd.connectionsOf] at hc
    have hnot := of_decide_eq_true (List.mem_filter.1 hc).2
    exact hnot ((hcovers'.handlers o c (by rw [hd.connectionsOf]; exact hc)).1 htells)
  cases hdeep : r.deep with
  | none =>
    rw [undo_of_none hdeep]
    refine ⟨hhandlers, fun o x hx htells => ?_⟩
    cases hw : x.watch with
    | report callback =>
      rw [hw] at htells
      exact hcovers'.watchers o x hx (hw.trans (congrArg _ (Option.some.inj htells)))
    | mend d =>
      rw [hw] at htells
      have := (hcovers'.deep d).1 htells
      rw [hdeep] at this
      cases this
  | some d =>
    rw [undo_of_some hdeep]
    have hr := rewatches_dropTree (m.disconnectAll r.connections) d
    refine ⟨fun o c hc => ?_, fun o x hx htells => ?_⟩
    · rw [hr.connectionsOf] at hc
      rw [handlerCallback_of_rewatches hr c.handler]
      exact hhandlers o c hc
    · obtain ⟨hx, hne⟩ := (mem_watchersOf_dropTree heased.orderly d).1 hx
      cases hw : x.watch with
      | report callback =>
        rw [hw] at htells
        exact hcovers'.watchers o x hx (hw.trans (congrArg _ (Option.some.inj htells)))
      | mend d' =>
        -- A watcher that mends the covered deep watch has gone with its tree.
        rw [hw] at htells
        have hcallback := (handlerCallback_of_rewatches hr (.follow d')).symm.trans htells
        have hsame := (hcovers'.deep d').1 hcallback
        rw [hdeep] at hsame
        rw [hw, Option.some.inj hsame] at hne
        exact hne rfl

/-- Undoing several registrations takes only from the functions that they cover, and nothing tells
these any more. -/
theorem undoAll (own : ObjectId → Prop) {rs : List Registration} (h : m.Orderly)
    (hrs : ∀ r ∈ rs, ∃ k, gone k ∧ m.Covers r k) :
    Spares own gone m (rs.foldl undo m) ∧
      ∀ r ∈ rs, ∀ k, m.Covers r k → (rs.foldl undo m).Dead k := by
  induction rs generalizing m with
  | nil =>
    refine ⟨(Spares.steady own gone).refl m, fun r hr => ?_⟩
    cases hr
  | cons r rs ih =>
    obtain ⟨k, hk, hcovers⟩ := hrs r List.mem_cons_self
    have heased := eases_undo m r h (knows_all m)
    have hrest : ∀ r' ∈ rs, ∃ k, gone k ∧ (m.undo r).Covers r' k := by
      intro r' hr'
      obtain ⟨k', hk', hcovers'⟩ := hrs r' (List.mem_cons_of_mem r hr')
      exact ⟨k', hk', heased.persists.covers r' k' trivial hcovers'⟩
    obtain ⟨hspares, hdead⟩ := ih heased.orderly hrest
    refine ⟨(Spares.steady own gone).trans (spares_undo h hcovers hk) hspares, ?_⟩
    intro r' hr' k' h'
    rcases List.mem_cons.1 hr' with rfl | hr'
    · have hall := (Eases.steady fun _ => True).foldl rs (fun r' _ m => eases_undo m r') (m.undo r')
        heased.orderly (knows_all _)
      exact hall.persists.dead k' trivial (dead_undo h h')
    · exact hdead r' hr' k' (heased.persists.covers r' k' trivial h')

/-! ## Entries of one binding -/

variable {f : Binding → Binding}

/-- A table of every object loses entries if that of the changed binding does. -/
theorem sublist_modifyBinding {α : Type} (table : Binding → List α)
    (h : ∀ b, (table (f b)).Sublist (table b)) (m : Model) (o p : ObjectId) :
    (((m.modifyBinding o f).binding? p).elim [] table).Sublist
      ((m.binding? p).elim [] table) := by
  rw [binding?_modifyBinding]
  split
  · cases m.binding? p with
    | none => exact .refl _
    | some b => exact h b
  · exact .refl _

/-- Taking entries out of the tables of a binding subscribes nothing. -/
theorem eases_of_sheds (hf : Binding.Sheds f) (m : Model) (o : ObjectId) :
    Eases known m (m.modifyBinding o f) := by
  have hsize : (m.modifyBinding o f).objects.size = m.objects.size := size_modifyObject m o _
  refine .fewer (Nat.le_of_eq hsize.symm) (fun hwhole p q hq => ?_) rfl
    (sublist_modifyBinding _ hf.connections m o) (sublist_modifyBinding _ hf.watchers m o)
    (sublist_modifyBinding _ hf.registrations m o)
    fun p => Nat.le_of_eq (elim_modifyBinding (·.lastId) hf.lastId 0 m o p).symm
  rw [store_modifyBinding] at hq
  exact Nat.lt_of_lt_of_eq (hwhole p q hq) hsize.symm

/-- Taking entries out of the tables of a binding spares the handlers and watchers of others. -/
theorem spares_of_sheds {own : ObjectId → Prop} (hf : Binding.Sheds f) (m : Model) {o : ObjectId}
    (hkept : ¬ own o → ∀ b, (f b).connections = b.connections ∧ (f b).watchers = b.watchers) :
    Spares own gone m (m.modifyBinding o f) where
  size := size_modifyObject m o _
  store := store_modifyBinding m o f
  linkOf := linkOf_modifyBinding hf.parent m o
  keysOf := keysOf_modifyBinding hf.keys m o
  lastIdOf p := Nat.le_of_eq (elim_modifyBinding (·.lastId) hf.lastId 0 m o p).symm
  handlerCallback _ := rfl
  connections := sublist_modifyBinding _ hf.connections m o
  handlers p c hc hown _ := by
    unfold connectionsOf at *
    rw [binding?_modifyBinding]
    split
    · rename_i hp
      subst hp
      cases hb : m.binding? p with
      | none =>
        rw [hb] at hc
        cases hc
      | some b =>
        rw [hb] at hc
        show c ∈ (f b).connections
        rw [(hkept hown b).1]
        exact hc
    · exact hc
  watchersOf := sublist_modifyBinding _ hf.watchers m o
  watchers p x hx hown _ := by
    unfold Model.watchersOf at *
    rw [binding?_modifyBinding]
    split
    · rename_i hp
      subst hp
      cases hb : m.binding? p with
      | none =>
        rw [hb] at hx
        cases hx
      | some b =>
        rw [hb] at hx
        show x ∈ (f b).watchers
        rw [(hkept hown b).2]
        exact hx
    · exact hx
  deep? _ _ hd _ := hd

/-! ## Releasing one registration -/

variable {o : ObjectId} {id : Nat}

/-- A registration is looked for among those of the object. -/
theorem registration?_eq (m : Model) (o : ObjectId) (id : Nat) :
    m.registration? o id = (m.registrationsOf o).find? (·.id == id) := by
  unfold registration? registrationsOf
  cases m.binding? o <;> rfl

/-- Removing a registration takes out those with its number. -/
theorem mem_registrationsOf_unregister {p : ObjectId} {r : Registration} :
    r ∈ (m.modifyBinding o (·.unregister id)).registrationsOf p ↔
      r ∈ m.registrationsOf p ∧ ¬ (p = o ∧ r.id = id) := by
  unfold registrationsOf
  rw [binding?_modifyBinding]
  by_cases hp : p = o
  · subst hp
    rw [if_pos rfl]
    cases m.binding? p with
    | none => simp
    | some b =>
      show r ∈ b.registrations.filter (·.id != id) ↔ r ∈ b.registrations ∧ _
      simp
  · rw [if_neg hp]
    simp [hp]

/-- Undoing what was registered does not register or release anything. -/
theorem registrationsOf_undo (m : Model) (r : Registration) (p : ObjectId) :
    (m.undo r).registrationsOf p = m.registrationsOf p := by
  have hd := disconnects_disconnectAll m r.connections
  cases hdeep : r.deep with
  | none =>
    rw [undo_of_none hdeep]
    exact hd.registrationsOf p
  | some d =>
    rw [undo_of_some hdeep]
    exact ((rewatches_dropTree _ d).registrationsOf p).trans (hd.registrationsOf p)

/-- There is nothing to release if there is no such registration. -/
theorem unbind_of_none (h : m.registration? o id = none) : m.unbind o id = (false, m) := by
  unfold unbind
  rw [h]

/-- To release a registration, it is removed and undone. -/
theorem unbind_of_some {r : Registration} (h : m.registration? o id = some r) :
    m.unbind o id = (true, (m.modifyBinding o (·.unregister id)).undo r) := by
  unfold unbind
  rw [h]

/-- Releasing a registration subscribes nothing. -/
theorem eases_unbind (m : Model) (o : ObjectId) (id : Nat) : Eases known m (m.unbind o id).2 := by
  cases h : m.registration? o id with
  | none =>
    rw [unbind_of_none h]
    exact (Eases.steady known).refl m
  | some r =>
    rw [unbind_of_some h]
    exact (Eases.steady known).trans (eases_of_sheds (Binding.sheds_unregister id) m o)
      (eases_undo _ r)

/-- A registration that is gone after a release was undone. -/
theorem released_unbind (h : m.Orderly) (o : ObjectId) (id : Nat) (p : ObjectId) {r : Registration}
    (hr : r ∈ m.registrationsOf p) (hcovers : m.Covers r k) :
    r ∈ (m.unbind o id).2.registrationsOf p ∨ (m.unbind o id).2.Dead k := by
  cases hreg : m.registration? o id with
  | none =>
    rw [unbind_of_none hreg]
    exact .inl hr
  | some r' =>
    rw [unbind_of_some hreg]
    by_cases hthis : p = o ∧ r.id = id
    · obtain ⟨rfl, hid⟩ := hthis
      rw [registration?_eq] at hreg
      have hid' : r'.id = id := by simpa using List.find?_some hreg
      obtain rfl := (h.registrations p).eq_of_number hr (List.mem_of_find?_eq_some hreg)
        (hid.trans hid'.symm)
      have heased := eases_of_sheds (Binding.sheds_unregister id) m p h (knows_all m)
      exact .inr (dead_undo heased.orderly (heased.persists.covers r k trivial hcovers))
    · refine .inl ?_
      rw [registrationsOf_undo]
      exact mem_registrationsOf_unregister.2 ⟨hr, hthis⟩

/-- Nothing tells the function whose subscription has the number that is released. -/
theorem dead_unbind (h : m.Orderly) (hheld : m.Held o id k) : (m.unbind o id).2.Dead k := by
  rcases hheld.present with ⟨r, hr, hid⟩ | hdead
  · refine (released_unbind h o id o hr (hheld.covers r hr hid)).resolve_left fun hstill => ?_
    cases hreg : m.registration? o id with
    | none =>
      rw [registration?_eq] at hreg
      exact List.find?_eq_none.1 hreg r hr (beq_iff_eq.2 hid)
    | some r' =>
      rw [unbind_of_some hreg, registrationsOf_undo] at hstill
      exact (mem_registrationsOf_unregister.1 hstill).2 ⟨rfl, hid⟩
  · exact (eases_unbind m o id h (knows_all m)).persists.dead k trivial hdead

/-- Releasing a registration removes exactly what tells the function of its subscription. -/
theorem removes_unbind (h : m.Orderly) (hheld : m.Held o id k) :
    Removes (fun _ => False) (fun p r => p = o ∧ r.id = id) (· = k) m (m.unbind o id).2 := by
  have hdead := dead_unbind h hheld
  cases hreg : m.registration? o id with
  | none =>
    rw [unbind_of_none hreg] at hdead ⊢
    refine ((Spares.steady _ _).refl m).removes (fun _ heq => heq ▸ hdead) (fun _ => False.elim)
      (fun _ => .refl _) fun p r hr => iff_of_true hr ?_
    rintro ⟨rfl, hid⟩
    rw [registration?_eq] at hreg
    exact List.find?_eq_none.1 hreg r hr (beq_iff_eq.2 hid)
  | some r =>
    rw [unbind_of_some hreg] at hdead ⊢
    rw [registration?_eq] at hreg
    have heased := eases_of_sheds (Binding.sheds_unregister id) m o h (knows_all m)
    have hid : r.id = id := by simpa using List.find?_some hreg
    have hcovers := heased.persists.covers r k trivial
      (hheld.covers r (List.mem_of_find?_eq_some hreg) hid)
    refine ((Spares.steady (fun _ => False) (· = k)).trans
      (spares_of_sheds (Binding.sheds_unregister id) m fun _ _ => ⟨rfl, rfl⟩)
      (spares_undo heased.orderly hcovers rfl)).removes (fun _ heq => heq ▸ hdead)
      (fun _ => False.elim) (fun p => ?_) fun p r' hr' => ?_
    · rw [registrationsOf_undo]
      exact sublist_modifyBinding _ (Binding.sheds_unregister id).registrations m o p
    · rw [registrationsOf_undo, mem_registrationsOf_unregister]
      exact and_iff_right hr'

/-! ## Releasing all -/

/-- To release all that is bound to an object, its registrations are removed and undone, and then
its handlers and watchers removed. -/
theorem unbindAll_eq (m : Model) (o : ObjectId) :
    m.unbindAll o = ((m.registrationsOf o).foldl undo
      (m.modifyBinding o fun b => { b with registrations := [] })).modifyBinding o
        fun b => { b with connections := [], watchers := [] } :=
  rfl

/-- Releasing all subscribes nothing. -/
theorem eases_unbindAll (m : Model) (o : ObjectId) : Eases known m (m.unbindAll o) := by
  have hI := Eases.steady known
  rw [unbindAll_eq]
  refine hI.trans (eases_of_sheds Binding.sheds_registrations m o) (hI.trans ?_
    (eases_of_sheds Binding.sheds_handlers _ o))
  exact hI.foldl _ (fun r _ m => eases_undo m r) _

/-- The registrations of an object are removed when all is released, and no others. -/
theorem registrationsOf_unbindAll (m : Model) (o p : ObjectId) :
    (m.unbindAll o).registrationsOf p = if p = o then [] else m.registrationsOf p := by
  have hundo (rs : List Registration) (m : Model) :
      (rs.foldl undo m).registrationsOf p = m.registrationsOf p := by
    induction rs generalizing m with
    | nil => rfl
    | cons r rs ih => exact (ih _).trans (registrationsOf_undo m r p)
  rw [unbindAll_eq]
  refine (elim_modifyBinding (·.registrations) (fun _ => by rfl) [] _ o p).trans ?_
  refine (hundo _ _).trans ?_
  unfold registrationsOf
  rw [binding?_modifyBinding]
  split
  · cases m.binding? p <;> rfl
  · rfl

/-- No handler and no watcher of an object is left when all is released. -/
theorem empty_unbindAll (m : Model) (o : ObjectId) :
    (m.unbindAll o).connectionsOf o = [] ∧ (m.unbindAll o).watchersOf o = [] := by
  rw [unbindAll_eq]
  unfold connectionsOf watchersOf
  rw [binding?_modifyBinding, if_pos rfl]
  constructor
  · cases Model.binding? _ o <;> rfl
  · cases Model.binding? _ o <;> rfl

/-- An object has no handlers and watchers when all is released. -/
theorem handlerCount_unbindAll (m : Model) (o : ObjectId) : (m.unbindAll o).handlerCount o = 0 := by
  obtain ⟨hconnections, hwatchers⟩ := empty_unbindAll m o
  unfold connectionsOf at hconnections
  unfold watchersOf at hwatchers
  unfold handlerCount
  cases hb : (m.unbindAll o).binding? o with
  | none => rfl
  | some b =>
    rw [hb] at hconnections hwatchers
    show b.connections.length + b.watchers.length = 0
    rw [show b.connections = [] from hconnections, show b.watchers = [] from hwatchers]
    rfl

/-- An object has no registrations when all is released. -/
theorem bindCount_unbindAll (m : Model) (o : ObjectId) : (m.unbindAll o).bindCount o = 0 := by
  have hregistrations : (m.unbindAll o).registrationsOf o = [] := by
    rw [registrationsOf_unbindAll, if_pos rfl]
  unfold registrationsOf at hregistrations
  unfold bindCount
  cases hb : (m.unbindAll o).binding? o with
  | none => rfl
  | some b =>
    rw [hb] at hregistrations
    exact congrArg List.length hregistrations

/-- A registration that is gone when all of an object is released was undone. -/
theorem released_unbindAll (h : m.Orderly) (o p : ObjectId)
    (hregistered : ∀ r ∈ m.registrationsOf o, ∃ k, gone k ∧ m.Covers r k) {r : Registration}
    (hr : r ∈ m.registrationsOf p) (hcovers : m.Covers r k) :
    r ∈ (m.unbindAll o).registrationsOf p ∨ (m.unbindAll o).Dead k := by
  by_cases hp : p = o
  · subst hp
    have heased := eases_of_sheds Binding.sheds_registrations m p h (knows_all m)
    have hpersists := heased.persists
    obtain ⟨_, hdead⟩ := undoAll (fun _ => False) heased.orderly
      fun r (hr : r ∈ m.registrationsOf p) => by
        obtain ⟨k, hk, hcovers⟩ := hregistered r hr
        exact ⟨k, hk, hpersists.covers r k trivial hcovers⟩
    have hall := (Eases.steady fun _ => True).foldl (m.registrationsOf p)
      (fun r _ m => eases_undo m r) _ heased.orderly (knows_all _)
    rw [unbindAll_eq]
    exact .inr ((eases_of_sheds Binding.sheds_handlers _ p hall.orderly
      (knows_all _)).persists.dead k trivial (hdead r hr k (hpersists.covers r k trivial hcovers)))
  · rw [registrationsOf_unbindAll, if_neg hp]
    exact .inl hr

/-- Nothing tells a function that was subscribed from an object when all is released there. -/
theorem dead_unbindAll (h : m.Orderly)
    (hregistered : ∀ r ∈ m.registrationsOf o, ∃ k, gone k ∧ m.Covers r k) (hissued : m.Issued o k) :
    (m.unbindAll o).Dead k := by
  obtain ⟨hconnections, hwatchers⟩ := empty_unbindAll m o
  rcases hissued with ⟨r, hr, hcovers⟩ | hconfined
  · refine (released_unbindAll h o o hregistered hr hcovers).resolve_left fun hstill => ?_
    rw [registrationsOf_unbindAll, if_pos rfl] at hstill
    cases hstill
  · have hconfined := (eases_unbindAll m o h (knows_all m)).persists.confined o k trivial hconfined
    refine ⟨fun p c hc htells => ?_, fun p x hx htells => ?_⟩
    · obtain ⟨rfl, _⟩ := hconfined.handlers p c hc htells
      rw [hconnections] at hc
      cases hc
    · obtain ⟨rfl, _⟩ := hconfined.watchers p x hx htells
      rw [hwatchers] at hx
      cases hx

/-- Releasing all that is bound to an object removes exactly what tells the functions that were
subscribed from there, and what is connected to the object itself. -/
theorem removes_unbindAll (h : m.Orderly)
    (hregistered : ∀ r ∈ m.registrationsOf o, ∃ k, gone k ∧ m.Covers r k)
    (hissued : ∀ k, gone k → m.Issued o k) :
    Removes (· = o) (fun p _ => p = o) gone m (m.unbindAll o) := by
  have heased := eases_of_sheds Binding.sheds_registrations m o h (knows_all m)
  obtain ⟨hspares, _⟩ := undoAll (· = o) heased.orderly
    fun r (hr : r ∈ m.registrationsOf o) => by
      obtain ⟨k, hk, hcovers⟩ := hregistered r hr
      exact ⟨k, hk, heased.persists.covers r k trivial hcovers⟩
  have hI := Spares.steady (· = o) gone
  refine (hI.trans (hI.trans (spares_of_sheds Binding.sheds_registrations m fun _ _ => ⟨rfl, rfl⟩)
    hspares) (spares_of_sheds Binding.sheds_handlers _ fun hne => absurd rfl hne)).removes
      (fun k hk => dead_unbindAll h hregistered (hissued k hk)) (fun p hp => ?_) (fun p => ?_)
      fun p r hr => ?_
  · rw [hp]
    exact empty_unbindAll m o
  · rw [← unbindAll_eq, registrationsOf_unbindAll]
    split
    · exact List.nil_sublist _
    · exact .refl _
  · rw [← unbindAll_eq, registrationsOf_unbindAll]
    split
    · rename_i hp
      simp [hp]
    · rename_i hp
      simp [hp, hr]

/-- A binding that a change leaves as it is leaves the model as it is. -/
theorem modifyBinding_eq_self (h : ∀ b, m.binding? o = some b → f b = b) :
    m.modifyBinding o f = m := by
  have hobjects : (m.modifyBinding o f).objects = m.objects := by
    refine Array.ext_getElem? fun p => ?_
    rw [show (m.modifyBinding o f).objects[p]? = _ from objects_modifyObject m o _ p]
    split
    · rename_i hp
      subst hp
      unfold binding? at h
      cases hx : m.objects[p]? with
      | none => rfl
      | some x =>
        rw [hx] at h
        obtain ⟨store, binding⟩ := x
        cases binding with
        | none => rfl
        | some b => exact congrArg (fun b => some (DataObject.mk store (some b))) (h b rfl)
    · rfl
  calc m.modifyBinding o f = { m with objects := (m.modifyBinding o f).objects } := rfl
    _ = m := by rw [hobjects]

/-- When all is released, there is nothing left to release. -/
theorem unbindAll_unbindAll (m : Model) (o : ObjectId) :
    (m.unbindAll o).unbindAll o = m.unbindAll o := by
  obtain ⟨hconnections, hwatchers⟩ := empty_unbindAll m o
  have hregistrations : (m.unbindAll o).registrationsOf o = [] := by
    rw [registrationsOf_unbindAll, if_pos rfl]
  generalize m.unbindAll o = m' at *
  have hempty : ∀ b, m'.binding? o = some b →
      b.connections = [] ∧ b.watchers = [] ∧ b.registrations = [] := by
    intro b hb
    unfold connectionsOf at hconnections
    unfold watchersOf at hwatchers
    unfold registrationsOf at hregistrations
    rw [hb] at hconnections hwatchers hregistrations
    exact ⟨hconnections, hwatchers, hregistrations⟩
  have hkeep : (m'.modifyBinding o fun b => { b with registrations := [] }) = m' :=
    modifyBinding_eq_self fun b hb => by rw [← (hempty b hb).2.2]
  rw [unbindAll_eq, hregistrations, hkeep]
  show m'.modifyBinding o _ = m'
  refine modifyBinding_eq_self fun b hb => ?_
  obtain ⟨hc, hw, _⟩ := hempty b hb
  obtain ⟨connections, watchers, registrations, parent, keys, lastId⟩ := b
  obtain rfl : connections = [] := hc
  obtain rfl : watchers = [] := hw
  rfl

end Model

end LiveScope
