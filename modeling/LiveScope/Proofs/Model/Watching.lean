import LiveScope.Proofs.Model.Edits

/-!
# What keeping up a deep watch changes

Setting up, mending and taking down the trees of deep watches changes watchers and trees, and gives
objects bindings, and nothing else. A relation that holds over each such change (`Model.Watches`)
holds over building, moving and mending a tree, where the tree itself is replaced on the way.

`Model.Rewatches` is the relation that is used throughout; it leaves open what is held from outside
too, so that it covers all that the library does to a model beside writing and subscribing.
-/

namespace LiveScope

/-- A deep watch without its tree. -/
def DeepWatch.bare (deep : DeepWatch) : DeepWatch := { deep with tree := none }

namespace Model

/-! ## What building, moving and mending are made of -/

/-- A relation that holds over any number of changes, among them each that gives an object a
binding, adds a watcher or removes one. -/
structure Watches (I : Model → Model → Prop) : Prop where
  /-- It holds over any number of changes. -/
  steady : Steady I
  /-- An object gets a binding. -/
  ensureBinding : ∀ m o, I m (m.ensureBinding o)
  /-- A watcher is added. -/
  watch : ∀ m o w, I m (m.watch o w).2
  /-- A watcher is removed. -/
  unwatch : ∀ m o seq, I m (m.unwatch o seq).2

namespace Watches

variable {I : Model → Model → Prop} {id : DeepId}

/-- Removing the watchers of a tree. -/
theorem detach (h : Watches I) (m : Model) (tree : WatchTree) : I m (m.detach tree) :=
  h.steady.foldl _ (fun x _ m => h.unwatch m x.1 x.2) m

/-- Removing the watchers of several trees. -/
theorem detachAll (h : Watches I) (m : Model) (children : List (String × WatchTree)) :
    I m (children.foldl (fun m e => m.detach e.2) m) :=
  h.steady.foldl _ (fun e _ m => h.detach m e.2) m

/-- Taking down the tree of a deep watch. -/
theorem dropTree (h : Watches I) (hset : ∀ m tree, I m (m.setTree id tree)) (m : Model) :
    I m (m.dropTree id) := by
  refine h.steady.trans ?_ (hset _ none)
  cases m.tree? id with
  | none => exact h.steady.refl m
  | some tree => exact h.detach m tree

/-- Watching an object and what is inside it. -/
theorem attach (h : Watches I) (id : DeepId) (levels : Nat) (o : ObjectId) :
    Edit.Keeps I (attach id levels o) := by
  have hI := h.steady
  induction levels generalizing o with
  | zero => exact .throw hI _
  | succ levels ih =>
    unfold Model.attach
    refine .bind hI (.get hI) fun m => ?_
    refine .bind hI (.mapM hI (fun child => ?_) _) fun children => ?_
    · exact .bind hI (.modify fun m => h.ensureBinding m _) fun _ =>
        .bind hI (ih _) fun _ => .pure hI _
    · exact .bind hI (.modifyGet fun m => h.watch m o _) fun _ => .pure hI _

/-- Moving a deep watch to another value. -/
theorem retarget (h : Watches I) (hset : ∀ m tree, I m (m.setTree id tree)) (v : Value) :
    Edit.Keeps I (retarget id v) := by
  have hI := h.steady
  unfold Model.retarget
  refine .bind hI (.get hI) fun m => ?_
  split
  · rename_i o
    dsimp only
    split
    · exact .pure hI _
    · exact .bind hI (.modify fun m => h.dropTree hset m) fun _ =>
        .bind hI (.modify fun m => h.ensureBinding m o) fun _ =>
          .bind hI (h.attach id _ o) fun _ => .modify fun m => hset m _
  · exact .modify fun m => h.dropTree hset m

/-- Mending the tree of a deep watch. -/
theorem mend (h : Watches I)
    (hmodify : ∀ m o w f, I m (m.setTree id ((m.tree? id).map (·.modify o w f)))) (o : ObjectId)
    (w : Nat) (key : String) (v : Value) : Edit.Keeps I (mend id o w key v) := by
  have hI := h.steady
  unfold Model.mend
  refine .bind hI (.get hI) fun m => ?_
  split
  · exact .pure hI _
  split
  · exact .pure hI _
  · rename_i depth node _
    dsimp only
    split
    · exact .bind hI (.modify fun m => hmodify m o w _) fun _ =>
        .modify fun m => h.detachAll m _
    split
    · exact .pure hI _
    · refine .bind hI (.modify fun m => hmodify m o w _) fun _ => ?_
      refine .bind hI (.modify fun m => ?_) fun _ => ?_
      · cases node.children.lookup key with
        | none => exact hI.refl m
        | some tree => exact h.detach m tree
      split
      · exact .pure hI _
      · exact .bind hI (.modify fun m => h.ensureBinding m _) fun _ =>
          .bind hI (h.attach id _ _) fun _ => .modify fun m => hmodify m o w _

end Watches

/-! ## What is left as it is -/

/-- `m'` differs from `m` in the watchers, in the trees of deep watches, in which objects have a
binding and in what is held, and in nothing else. -/
structure Rewatches (m m' : Model) : Prop where
  /-- There are the same objects. -/
  size : m'.objects.size = m.objects.size
  /-- All content is the same. -/
  store : ∀ o, m'.store o = m.store o
  /-- The connections are the same. -/
  connectionsOf : ∀ o, m'.connectionsOf o = m.connectionsOf o
  /-- The registrations are the same. -/
  registrationsOf : ∀ o, m'.registrationsOf o = m.registrationsOf o
  /-- The links are the same. -/
  linkOf : ∀ o, m'.linkOf o = m.linkOf o
  /-- Changes of the same keys are told of. -/
  keysOf : ∀ o, m'.keysOf o = m.keysOf o
  /-- Bindings are kept. -/
  isBound : ∀ o, m.isBound o = true → m'.isBound o = true
  /-- Numbers that were given out stay given out. -/
  lastIdOf : ∀ o, m.lastIdOf o ≤ m'.lastIdOf o
  /-- The deep watches are the same but for their trees. -/
  deep? : ∀ d, (m'.deep? d).map DeepWatch.bare = (m.deep? d).map DeepWatch.bare

/-- Any number of such changes is one. -/
theorem Rewatches.steady : Steady Rewatches where
  refl _ := ⟨rfl, fun _ => rfl, fun _ => rfl, fun _ => rfl, fun _ => rfl, fun _ => rfl,
    fun _ h => h, fun _ => Nat.le_refl _, fun _ => rfl⟩
  trans h h' := {
    size := h'.size.trans h.size
    store := fun o => (h'.store o).trans (h.store o)
    connectionsOf := fun o => (h'.connectionsOf o).trans (h.connectionsOf o)
    registrationsOf := fun o => (h'.registrationsOf o).trans (h.registrationsOf o)
    linkOf := fun o => (h'.linkOf o).trans (h.linkOf o)
    keysOf := fun o => (h'.keysOf o).trans (h.keysOf o)
    isBound := fun o hb => h'.isBound o (h.isBound o hb)
    lastIdOf := fun o => Nat.le_trans (h.lastIdOf o) (h'.lastIdOf o)
    deep? := fun d => (h'.deep? d).trans (h.deep? d) }

/-- The deep watches are the same. -/
theorem Rewatches.isSome_deep? {m m' : Model} (h : m.Rewatches m') (d : DeepId) :
    (m'.deep? d).isSome = (m.deep? d).isSome := by
  have hbare := congrArg Option.isSome (h.deep? d)
  rwa [Option.isSome_map, Option.isSome_map] at hbare

/-- Giving an object a binding. -/
theorem rewatches_ensureBinding (m : Model) (o : ObjectId) : Rewatches m (m.ensureBinding o) where
  size := size_modifyObject m o _
  store := store_ensureBinding m o
  connectionsOf := elim_ensureBinding (·.connections) m o
  registrationsOf := elim_ensureBinding (·.registrations) m o
  linkOf := linkOf_ensureBinding m o
  keysOf := keysOf_ensureBinding m o
  isBound _ h := isBound_ensureBinding h o
  lastIdOf p := Nat.le_of_eq (elim_ensureBinding (·.lastId) m o p).symm
  deep? _ := rfl

/-- A change of the watchers of a binding, which may give out numbers. -/
theorem rewatches_modifyBinding {f : Binding → Binding}
    (h : ∀ b, ∃ watchers lastId, f b = { b with watchers, lastId } ∧ b.lastId ≤ lastId)
    (m : Model) (o : ObjectId) : Rewatches m (m.modifyBinding o f) where
  size := size_modifyObject m o _
  store := store_modifyBinding m o f
  connectionsOf := elim_modifyBinding (·.connections)
    (fun b => by obtain ⟨_, _, h, _⟩ := h b; rw [h]) [] m o
  registrationsOf := elim_modifyBinding (·.registrations)
    (fun b => by obtain ⟨_, _, h, _⟩ := h b; rw [h]) [] m o
  linkOf := linkOf_modifyBinding (fun b => by obtain ⟨_, _, h, _⟩ := h b; rw [h]) m o
  keysOf := keysOf_modifyBinding (fun b => by obtain ⟨_, _, h, _⟩ := h b; rw [h]) m o
  isBound p hb := by
    rw [isBound_modifyBinding]
    exact hb
  lastIdOf p := by
    unfold lastIdOf
    rw [binding?_modifyBinding]
    split
    · cases m.binding? p with
      | none => exact Nat.le_refl _
      | some b =>
        obtain ⟨_, _, h, hle⟩ := h b
        show b.lastId ≤ (f b).lastId
        rw [h]
        exact hle
    · exact Nat.le_refl _
  deep? _ := rfl

/-- Holding other things. -/
theorem rewatches_holds (m : Model) (holds : List Hold) : Rewatches m { m with holds } :=
  ⟨rfl, fun _ => rfl, fun _ => rfl, fun _ => rfl, fun _ => rfl, fun _ => rfl, fun _ h => h,
    fun _ => Nat.le_refl _, fun _ => rfl⟩

/-- Giving up several holds. -/
theorem rewatches_releaseAll (m : Model) (hs : List Hold) : Rewatches m (m.releaseAll hs) :=
  Rewatches.steady.foldl hs (fun h _ m => rewatches_holds m (m.holds.erase h)) m

/-- Adding a watcher. -/
theorem rewatches_watch (m : Model) (o : ObjectId) (w : Watch) : Rewatches m (m.watch o w).2 :=
  rewatches_modifyBinding (fun _ => ⟨_, _, rfl, Nat.le_succ _⟩) m o

/-- Removing a watcher. -/
theorem rewatches_unwatch (m : Model) (o : ObjectId) (seq : Nat) :
    Rewatches m (m.unwatch o seq).2 :=
  rewatches_modifyBinding (fun b => ⟨_, b.lastId, rfl, Nat.le_refl _⟩) m o

/-- Replacing a tree. -/
theorem rewatches_setTree (m : Model) (id : DeepId) (tree : Option WatchTree) :
    Rewatches m (m.setTree id tree) :=
  { Rewatches.steady.refl m with
    deep? := fun d => by
      rw [deep?_setTree]
      split
      · cases m.deep? d <;> rfl
      · rfl }

/-- Rewatching is made of such changes. -/
theorem Rewatches.watches : Watches Rewatches where
  steady := Rewatches.steady
  ensureBinding := rewatches_ensureBinding
  watch := rewatches_watch
  unwatch := rewatches_unwatch

/-- Taking down the tree of a deep watch. -/
theorem rewatches_dropTree (m : Model) (id : DeepId) : Rewatches m (m.dropTree id) :=
  Rewatches.watches.dropTree (fun m => rewatches_setTree m id) m

/-- Moving a deep watch to another value. -/
theorem rewatches_retarget (id : DeepId) (v : Value) : Edit.Keeps Rewatches (retarget id v) :=
  Rewatches.watches.retarget (fun m => rewatches_setTree m id) v

/-- Mending the tree of a deep watch. -/
theorem rewatches_mend (id : DeepId) (o : ObjectId) (w : Nat) (key : String) (v : Value) :
    Edit.Keeps Rewatches (mend id o w key v) :=
  Rewatches.watches.mend (fun m _ _ _ => rewatches_setTree m id _) o w key v

end Model

end LiveScope
