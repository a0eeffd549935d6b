import LiveScope.Proofs.Spelling.Mending

/-!
# Two dispatches in step

Two worlds may be the same but for trees that are alike and for what their clients know
(`World.Respelled`). Then dispatches of one value, of keys that stand for each other, call the same
handlers and watchers in both, and leave worlds that are the same in this way
(`World.Respelled.notify`), if those who are told take no notice of the spelling
(`Listener.Respells`).
-/

namespace LiveScope

variable {γ : Type}

/-- Whether two notices are the same but for the key that was changed. -/
inductive Notice.Respelled (S : String → String → Prop) : Notice → Notice → Prop
  | same (n : Notice) : Respelled S n n
  | change {k k' : String} (key : S k k') (callback : CallbackId) (v : Value) (o : ObjectId) :
      Respelled S (.change callback k v o) (.change callback k' v o)
  | nested {k k' : String} (key : S k k') (fault : Fault) :
      Respelled S (.warning (.nested k fault)) (.warning (.nested k' fault))

/-- Whether two worlds with at least so many objects are the same but for trees that are alike, and
what the clients know is in a relation. -/
structure World.Respelled (K : Keying) (C : γ → γ → Prop) (n : Nat) (w w' : World γ) : Prop where
  /-- The models are the same but for trees that are alike. -/
  models : w.model.Respelled K w'.model
  /-- Nodes have numbers of their own in the first world. -/
  unshared : w.model.Unshared
  /-- So they have in the second world. -/
  unshared' : w'.model.Unshared
  /-- All that is referred to exists. -/
  whole : w.model.Whole
  /-- Every key stands for itself below nodes that are new. -/
  fresh : w.model.Fresh K
  /-- There are so many objects at least. -/
  size : n ≤ w.model.objects.size
  /-- What the clients know is in the relation. -/
  clients : C w.client w'.client

/-- Whether a client that is told the same but for the key of a change, in worlds that are the same
but for trees that are alike, leaves such worlds. -/
def Listener.Respells (S : String → String → Prop) (K : Keying) (C : γ → γ → Prop) (n : Nat)
    (listen : Listener γ) : Prop :=
  ∀ x x' u u', Notice.Respelled S x x' → World.Respelled K C n u u' →
    World.Respelled K C n (listen x u) (listen x' u')

variable {S : String → String → Prop} {K : Keying} {C : γ → γ → Prop} {n : Nat}
  {listen : Listener γ} {w w' : World γ} {o : ObjectId} {v : Value} {k k' : String}

/-- A number that was not given out after a change was not before it. -/
theorem Model.Fresh.rewatches {m m' : Model} (h : m.Fresh K) (hr : m.Rewatches m') : m'.Fresh K :=
  fun o w hw => h o w (Nat.lt_of_le_of_lt (hr.lastIdOf o) hw)

namespace World.Respelled

/-- Whatever only rewatches leaves the worlds the same if it leaves trees that are alike. -/
theorem replace (h : World.Respelled K C n w w') {m m' : Model} (hr : w.model.Rewatches m)
    (hm : m.Respelled K m') (hunshared : m.Unshared) (hunshared' : m'.Unshared) :
    World.Respelled K C n { w with model := m } { w' with model := m' } where
  models := hm
  unshared := hunshared
  unshared' := hunshared'
  whole := h.whole.rewatches hr
  fresh := h.fresh.rewatches hr
  size := Nat.le_trans h.size (Nat.le_of_eq hr.size.symm)
  clients := h.clients

/-- Other things are held in both worlds. -/
theorem holds (h : World.Respelled K C n w w') (holds : List Hold) :
    World.Respelled K C n { w with model := { w.model with holds } }
      { w' with model := { w'.model with holds } } :=
  h.replace (Model.rewatches_holds w.model holds) (h.models.hold holds) h.unshared h.unshared'

/-- Several things are held in both worlds. -/
theorem holdAll (h : World.Respelled K C n w w') (hs : List Hold) :
    World.Respelled K C n (w.mapModel (·.holdAll hs)) (w'.mapModel (·.holdAll hs)) := by
  have hheld := h.holds (hs ++ w.model.holds)
  have hsame : w'.mapModel (·.holdAll hs) =
      { w' with model := { w'.model with holds := hs ++ w.model.holds } } := by
    rw [← h.models.holds]
    rfl
  rw [hsame]
  exact hheld

/-- Several things are given up in both worlds. -/
theorem releaseAll (h : World.Respelled K C n w w') (hs : List Hold) :
    World.Respelled K C n (w.mapModel (·.releaseAll hs)) (w'.mapModel (·.releaseAll hs)) := by
  induction hs generalizing w w' with
  | nil => exact h
  | cons x hs ih =>
    have hreleased := h.holds (w.model.holds.erase x)
    have hsame : w'.mapModel (·.release x) =
        { w' with model := { w'.model with holds := w.model.holds.erase x } } := by
      rw [← h.models.holds]
      rfl
    rw [← hsame] at hreleased
    exact ih hreleased

/-- The same is done in both worlds while the same things are held. -/
theorem holding (h : World.Respelled K C n w w') (hs : List Hold) {f f' : World γ → World γ}
    (hf : ∀ u u', World.Respelled K C n u u' → World.Respelled K C n (f u) (f' u')) :
    World.Respelled K C n (w.holding hs f) (w'.holding hs f') :=
  (hf _ _ (h.holdAll hs)).releaseAll hs

/-- A deep watch is moved to one value in both worlds. -/
theorem retarget (h : World.Respelled K C n w w') (hv : ∀ q, v = .object q → q < n) (id : DeepId) :
    Edit.Agrees
      (fun m m' => World.Respelled K C n { w with model := m } { w' with model := m' })
      (Model.retarget id v w.model) (Model.retarget id v w'.model) := by
  have hexist (q : ObjectId) (hq : v = .object q) : q < w.model.objects.size :=
    Nat.lt_of_lt_of_le (hv q hq) h.size
  have hmoved := h.models.retarget h.fresh h.whole hexist id
  exact .of_eq hmoved.result (h.replace (Model.rewatches_retarget id v w.model) hmoved.models
    (h.unshared.retarget h.whole hexist rfl)
    (h.unshared'.retarget (h.models.whole h.whole)
      (fun q hq => h.models.objects ▸ hexist q hq) rfl))

/-- A tree is mended with one value in both worlds. -/
theorem mend (hK : K.Coherent) (h : World.Respelled K C n w w')
    (hv : ∀ q, v = .object q → q < n) (id : DeepId) {seq : Nat} (hk : K o seq k k') :
    Edit.Agrees
      (fun m m' => World.Respelled K C n { w with model := m } { w' with model := m' })
      (Model.mend id o seq k v w.model) (Model.mend id o seq k' v w'.model) := by
  have hexist (q : ObjectId) (hq : v = .object q) : q < w.model.objects.size :=
    Nat.lt_of_lt_of_le (hv q hq) h.size
  have hmended := h.models.mend id hK h.unshared h.unshared' h.fresh h.whole hexist hk
  exact .of_eq hmended.result (h.replace (Model.rewatches_mend id o seq k v w.model) hmended.models
    (h.unshared.mend h.whole hexist rfl)
    (h.unshared'.mend (h.models.whole h.whole)
      (fun q hq => h.models.objects ▸ hexist q hq) rfl))

/-! ## Telling -/

section Telling

variable (hlisten : listen.Respells S K C n)

include hlisten

/-- The function of a deep watch is told the same. -/
theorem tell (h : World.Respelled K C n w w') (deep : DeepWatch) :
    World.Respelled K C n (deep.tell listen w) (deep.tell listen w') := by
  have hvalue : w'.model.get deep.owner deep.key = w.model.get deep.owner deep.key :=
    congrArg (fun store : ObjectId → Store => (store deep.owner).get deep.key)
      (Model.store_congr h.models.objects)
  unfold DeepWatch.tell
  rw [h.models.isAlive, hvalue]
  split
  · exact h.holding _ fun u u' hu => hlisten _ _ u u' (.same _) hu
  · exact h

/-- A handler is run with one value. -/
theorem handler (h : World.Respelled K C n w w') (hv : ∀ q, v = .object q → q < n)
    (handler : Handler) :
    World.Respelled K C n (handler.run listen v w) (handler.run listen v w') := by
  cases handler with
  | report sink => exact hlisten _ _ w w' (.same _) h
  | recompute field f =>
    unfold Handler.run Formula.update
    dsimp only
    rw [h.models.isAlive, h.models.eval]
    split
    · cases f.expr.eval w.model (.object f.scope) f.row with
      | ok v => exact h.holding _ fun u u' hu => hlisten _ _ u u' (.same _) hu
      | error fault => exact hlisten _ _ w w' (.same _) h
    · exact h
  | follow id =>
    unfold Handler.run
    dsimp only
    rcases h.models.deep?_cases id with ⟨hd, hd'⟩ | ⟨deep, tree, hd, hd'⟩
    · rw [hd, hd']
      exact h
    · have hmoved := h.retarget hv id
      rw [hd, hd']
      dsimp only
      -- Whether the value is refused or not, the function is told of it after that.
      generalize Model.retarget id v w.model = x at hmoved ⊢
      generalize Model.retarget id v w'.model = x' at hmoved ⊢
      refine hlisten _ _ _ _ (.same _) ?_
      cases hmoved with
      | ok _ hmodels => exact hmodels
      | error fault hmodels => exact hlisten _ _ _ _ (.same _) hmodels

/-- A watcher is run with one value, and keys that stand for each other. -/
theorem watcher (hK : K.Coherent) (h : World.Respelled K C n w w')
    (hv : ∀ q, v = .object q → q < n) (hS : S k k') {x : Watcher} (hk : K o x.seq k k') :
    World.Respelled K C n (x.run listen o k v w) (x.run listen o k' v w') := by
  unfold Watcher.run
  cases x.watch with
  | report callback => exact hlisten _ _ w w' (.change hS callback v o) h
  | mend id =>
    dsimp only
    rcases h.models.deep?_cases id with ⟨hd, hd'⟩ | ⟨deep, tree, hd, hd'⟩
    · rw [hd, hd']
      exact h
    · have hmended := h.mend hK hv id hk
      rw [hd, hd']
      dsimp only
      -- A refusal is told of first; the function of the deep watch is told after that in any case.
      generalize Model.mend id o x.seq k v w.model = y at hmended ⊢
      generalize Model.mend id o x.seq k' v w'.model = y' at hmended ⊢
      refine tell hlisten ?_ deep
      cases hmended with
      | ok _ hmodels => exact hmodels
      | error fault hmodels => exact hlisten _ _ _ _ (.nested hS fault) hmodels

/-- The turns of handlers. -/
theorem handlers (h : World.Respelled K C n w w') (hv : ∀ q, v = .object q → q < n)
    (cs : List Connection) :
    World.Respelled K C n (cs.foldl (handlerTurn listen o v) w)
      (cs.foldl (handlerTurn listen o v) w') := by
  induction cs generalizing w w' with
  | nil => exact h
  | cons c cs ih =>
    refine ih ?_
    unfold handlerTurn
    rw [h.models.isConnected]
    split
    · exact (handler hlisten h hv c.handler).releaseAll _
    · exact h.releaseAll _

/-- The turns of watchers. -/
theorem watchers (hK : K.Coherent) (h : World.Respelled K C n w w')
    (hv : ∀ q, v = .object q → q < n) (hS : S k k') {xs : List Watcher}
    (hk : ∀ x ∈ xs, K o x.seq k k') :
    World.Respelled K C n (xs.foldl (watcherTurn listen o k v) w)
      (xs.foldl (watcherTurn listen o k' v) w') := by
  induction xs generalizing w w' with
  | nil => exact h
  | cons x xs ih =>
    refine ih ?_ fun y hy => hk y (List.mem_cons_of_mem x hy)
    unfold watcherTurn
    rw [h.models.isWatching]
    split
    · exact watcher hlisten hK h hv hS (hk x List.mem_cons_self)
    · exact h

/-- Dispatches of one value and of keys that stand for each other do the same, if the same handlers
are connected to both. -/
theorem notify (hK : K.Coherent) (h : World.Respelled K C n w w')
    (hv : ∀ q, v = .object q → q < n) (hS : S k k')
    (hnotifies : w.model.notifies o k' = w.model.notifies o k)
    (hhandlers : w.model.handlersOf o k' = w.model.handlersOf o k)
    (hk : ∀ x ∈ w.model.watchersOf o, K o x.seq k k') :
    World.Respelled K C n (w.notify listen o k v) (w'.notify listen o k' v) := by
  rw [notify_eq, notify_eq, h.models.notifies, h.models.handlersOf, h.models.watchersOf, hnotifies,
    hhandlers]
  split
  · exact watchers hlisten hK (handlers hlisten (h.holdAll _) hv _) hv hS hk
  · exact h

end Telling

end World.Respelled

end LiveScope
