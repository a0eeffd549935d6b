import LiveScope.Proofs.Deep.Rebuilding
import LiveScope.Proofs.Deep.Roots
import LiveScope.Proofs.Model.Subscribing
import LiveScope.Proofs.Release.Subscribing
import LiveScope.Proofs.World.Binding
import LiveScope.Proofs.World.Journals

/-!
# Deep watches follow their property

The handler of a deep watch moves it to the value that the dispatch carries. If other handlers of
the property write the property again, there are dispatches within dispatches, and the innermost is
over first. `Following.Step` are the operations of such a run, for one deep watch: it is set up at
most once, and any object may be written at any time, by whoever is told of something.

Once the handler has had its turn in a dispatch, the deep watch is where the property is, and
whatever happens then starts from there: this is what `Following.Onward` keeps. An object that lies
too deep is refused, and then nothing is watched until the property is written again; the client
keeps a journal, by which it can be said that the value was too deep and what was not written since
(`Journal.Refused`). The one thing that can go wrong is that a handler before it in the same
dispatch has put another value in place, so that the value it is given is not the value that is
stored any more (`Following.follows_not_overtaken`). That is excluded in `Following.watchedRoot_eq`,
and there is no such handler if the deep watch was the first to be connected to the property
(`Following.unhindered_of_first`).
-/

namespace LiveScope

/-- Whether a handler moves a deep watch. -/
def Handler.follows (d : DeepId) : Handler → Bool
  | follow id => id == d
  | report _ | recompute _ _ => false

/-- A handler that moves a deep watch does nothing else. -/
theorem Handler.eq_follow {d : DeepId} {h : Handler} (hd : h.follows d = true) : h = .follow d := by
  cases h with
  | report | recompute => cases hd
  | follow e => rw [beq_iff_eq.1 hd]

namespace Model

/-- Whether a deep watch has no tree, and the value of its property is an object that is too deep
to have one. -/
structure Refuses (m : Model) (d : DeepId) (r : ObjectId) (p : String) (v : Value) : Prop where
  /-- The value is that of the property. -/
  stored : m.get r p = v
  /-- It is an object, and something inside it is too deep. -/
  deep : ∃ q, v = .object q ∧ ¬ m.Within maxDepth q
  /-- The deep watch watches nothing. -/
  dropped : m.watchedRoot d = none

end Model

/-- Whether a deep watch was refused the value of its property the last time it was moved: the value
was too deep when that was noted, and the property was not written since. -/
def Journal.Refused (d : DeepId) (r : ObjectId) (p : String) (v : Value) (journal : Journal) :
    Prop :=
  ∃ recent fault now earlier,
    journal = recent ++ .told (.warning (.replacement p fault)) now :: earlier ∧
      now.Refuses d r p v ∧ ∀ e ∈ recent, ¬ e.Writes r p

/-- A deep watch that was refused the value stays so until the property is written. -/
theorem Journal.Refused.cons {d : DeepId} {r : ObjectId} {p : String} {v : Value}
    {journal : Journal} {e : Note} (h : journal.Refused d r p v) (he : ¬ e.Writes r p) :
    Journal.Refused d r p v (e :: journal) := by
  obtain ⟨recent, fault, now, earlier, rfl, hrefuses, hrecent⟩ := h
  exact ⟨e :: recent, fault, now, earlier, rfl, hrefuses, List.forall_mem_cons.2 ⟨he, hrecent⟩⟩

namespace Model

/-- The connections of an object that move a deep watch. -/
def followers (m : Model) (d : DeepId) (o : ObjectId) : List Connection :=
  (m.connectionsOf o).filter (·.handler.follows d)

/-- What is so of a deep watch in every run: at most one connection moves it, and that is one of its
property, which belongs to a map and is told of. -/
structure Placed (m : Model) (d : DeepId) (r : ObjectId) (p : String) : Prop where
  /-- What moves the deep watch is connected to its property. -/
  alone : ∀ o, ∀ c ∈ m.followers d o, o = r ∧ c.key = p
  /-- There is one such connection at most. -/
  once : (m.followers d r).length ≤ 1
  /-- A deep watch that is moved exists. -/
  known : ∀ o, m.followers d o ≠ [] → (m.deep? d).isSome = true
  /-- It is one of the property. -/
  named : ∀ deep, m.deep? d = some deep → deep.key = p
  /-- The property belongs to a map. -/
  map : (m.store r).isList = false
  /-- Changes of the property are told of. -/
  told : ∀ keys, m.keysOf r = some keys → p ∈ keys

/-- A change that adds nothing that moves a deep watch, and keeps what its property belongs to. -/
structure Retains (d : DeepId) (r : ObjectId) (m m' : Model) : Prop where
  /-- No connection that moves the deep watch is added. -/
  followers : ∀ o, (m'.followers d o).Sublist (m.followers d o)
  /-- The deep watch has the same property, if it exists. -/
  key : (m'.deep? d).map (·.key) = (m.deep? d).map (·.key)
  /-- A map stays a map, and a list a list. -/
  isList : (m'.store r).isList = (m.store r).isList
  /-- Changes of the same keys are told of. -/
  keysOf : m'.keysOf r = m.keysOf r

/-- A change that besides does not concern the property itself, nor what is watched. -/
structure Passes (d : DeepId) (r : ObjectId) (p : String) (m m' : Model) : Prop
    extends Retains d r m m' where
  /-- The value of the property is the same. -/
  get : m'.get r p = m.get r p
  /-- The same object is watched, as long as something moves the deep watch. -/
  root : m'.followers d r ≠ [] → SameRoot d m m'

variable {m m' : Model} {d : DeepId} {r o : ObjectId} {p key : String}

/-- What rewatches adds nothing that moves a deep watch. -/
theorem Retains.of_rewatches (h : m.Rewatches m') : Retains d r m m' where
  followers o := by
    unfold Model.followers
    rw [h.connectionsOf]
  key := by
    have hkey (m : Model) : (m.deep? d).map (·.key) =
        ((m.deep? d).map DeepWatch.bare).map (·.key) := by
      rw [Option.map_map]
      rfl
    rw [hkey, hkey, h.deep?]
  isList := by rw [h.store]
  keysOf := h.keysOf r

/-- What rewatches others does not concern a deep watch. -/
theorem Passes.of_rewatches (h : m.Rewatches m') (hroot : SameRoot d m m') :
    Passes d r p m m' where
  toRetains := .of_rewatches h
  get := congrArg (·.get p) (h.store r)
  root _ := hroot

/-- A write adds nothing that moves a deep watch. -/
theorem retains_setStore (m : Model) (s : Store) (hlist : s.isList = (m.store o).isList) :
    Retains d r m (m.setStore o s) where
  followers o := by
    unfold Model.followers
    rw [connectionsOf_setStore]
  key := rfl
  isList := by
    rw [store_setStore]
    split
    · rename_i h
      rw [hlist, h.1]
    · rfl
  keysOf := keysOf_setStore m o s r

/-- What moves a deep watch after a change moved it before. -/
theorem Retains.ne_nil (h : Retains d r m m') {o : ObjectId} (ho : m'.followers d o ≠ []) :
    m.followers d o ≠ [] := by
  intro hnil
  exact ho (List.sublist_nil.1 (hnil ▸ h.followers o))

/-- A deep watch that is there stays there. -/
theorem Retains.isSome (h : Retains d r m m') (hd : (m.deep? d).isSome = true) :
    (m'.deep? d).isSome = true := by
  have hsome := congrArg Option.isSome h.key
  rw [Option.isSome_map, Option.isSome_map, hd] at hsome
  exact hsome

/-- One connection moves a deep watch. -/
theorem Placed.only (h : m.Placed d r p) {c c' : Connection} (hc : c ∈ m.followers d r)
    (hc' : c' ∈ m.followers d r) : c' = c := by
  have hlength := h.once
  match hf : m.followers d r with
  | [] =>
    rw [hf] at hc
    cases hc
  | [c₁] =>
    rw [hf] at hc hc'
    rw [List.mem_singleton.1 hc, List.mem_singleton.1 hc']
  | _ :: _ :: _ =>
    rw [hf] at hlength
    simp at hlength

/-- A property that a deep watch is connected to is told of. -/
theorem Placed.notifies (h : m.Placed d r p) {c : Connection} (hc : c ∈ m.followers d r) :
    m.notifies r p = true :=
  notifies_of_mem (List.mem_filter.1 hc).1 fun keys hkeys =>
    List.contains_iff_mem.2 (h.told keys hkeys)

/-- The connection that moves a deep watch is the only such handler of its property. -/
theorem Placed.split (h : m.Placed d r p) {c : Connection} (hc : c ∈ m.followers d r) :
    ∃ post, m.handlersOf r p =
        (m.handlersOf r p).takeWhile (fun c => !c.handler.follows d) ++ c :: post ∧
      (∀ c' ∈ (m.handlersOf r p).takeWhile (fun c => !c.handler.follows d),
        c'.handler.follows d = false) ∧
      ∀ c' ∈ post, c'.handler.follows d = false := by
  obtain ⟨hconnected, hfollows⟩ := List.mem_filter.1 hc
  have hmem : c ∈ m.handlersOf r p := mem_handlersOf.2 ⟨hconnected, (h.alone r c hc).2⟩
  -- The handlers of the property that move the deep watch are among all that do.
  have hcount : ((m.handlersOf r p).filter (·.handler.follows d)).length ≤ 1 := by
    rw [handlersOf_eq]
    exact Nat.le_trans (List.filter_sublist.filter _).length_le h.once
  have hpre : ∀ c' ∈ (m.handlersOf r p).takeWhile (fun c => !c.handler.follows d),
      c'.handler.follows d = false := by
    intro c' hc'
    have hnot := List.all_eq_true.1 List.all_takeWhile c' hc'
    rwa [Bool.not_eq_true'] at hnot
  have hsplit := (m.handlersOf r p).takeWhile_append_dropWhile (p := fun c => !c.handler.follows d)
  have hdrop : c ∈ (m.handlersOf r p).dropWhile (fun c => !c.handler.follows d) := by
    rw [← hsplit] at hmem
    refine (List.mem_append.1 hmem).resolve_left fun hmem => ?_
    rw [hpre c hmem] at hfollows
    cases hfollows
  cases hrest : (m.handlersOf r p).dropWhile (fun c => !c.handler.follows d) with
  | nil =>
    rw [hrest] at hdrop
    cases hdrop
  | cons c' post =>
    rw [hrest] at hsplit
    have hc' : c'.handler.follows d = true := by
      have hnot := List.head_dropWhile_not (fun c : Connection => !c.handler.follows d)
        (by rw [hrest]; exact List.cons_ne_nil c' post)
      simpa [hrest] using hnot
    have hmem' : c' ∈ m.followers d r := by
      have hmem' : c' ∈ m.handlersOf r p := by
        rw [← hsplit]
        exact List.mem_append_right _ List.mem_cons_self
      exact List.mem_filter.2 ⟨(mem_handlersOf.1 hmem').1, hc'⟩
    -- The first handler that moves the deep watch is the one, and no second can come after it.
    obtain rfl := h.only hc hmem'
    refine ⟨post, hsplit.symm, hpre, fun c hc => Bool.eq_false_iff.2 ?_⟩
    rw [← hsplit, List.filter_append, List.length_append, List.filter_cons, if_pos hc',
      List.length_cons] at hcount
    have hnil : post.filter (·.handler.follows d) = [] := List.length_eq_zero_iff.1 (by omega)
    exact List.filter_eq_nil_iff.1 hnil c hc

/-- A deep watch that is not there is placed wherever a property of a map is told of. -/
theorem placed_of_new (hmap : (m.store r).isList = false)
    (htold : ∀ keys, m.keysOf r = some keys → p ∈ keys) (hnew : m.deep? d = none)
    (hnone : ∀ o, m.followers d o = []) : m.Placed d r p := by
  refine ⟨fun o c hc => ?_, ?_, fun o ho => absurd (hnone o) ho, fun deep hd => ?_, hmap, htold⟩
  · rw [hnone] at hc
    cases hc
  · rw [hnone]
    exact Nat.zero_le _
  · rw [hnew] at hd
    cases hd

/-- A deep watch stays placed. -/
theorem Placed.retains (h : m.Placed d r p) (hr : Retains d r m m') : m'.Placed d r p where
  alone o c hc := h.alone o c ((hr.followers o).subset hc)
  once := Nat.le_trans (hr.followers r).length_le h.once
  known o ho := hr.isSome (h.known o (hr.ne_nil ho))
  named deep hdeep := by
    have hkey := hr.key
    rw [hdeep] at hkey
    obtain ⟨deep', hdeep', heq⟩ := Option.map_eq_some_iff.1 hkey.symm
    exact heq.symm.trans (h.named deep' hdeep')
  map := by
    rw [hr.isList]
    exact h.map
  told keys hkeys := by
    rw [hr.keysOf] at hkeys
    exact h.told keys hkeys

end Model

namespace World

variable {γ : Type}

/-- Whether the handlers of a property that come before that of a deep watch leave its value as it
is. -/
def Unhindered (d : DeepId) (listen : Listener γ) (r : ObjectId) (p : String) (v : Value)
    (w : World γ) : Prop :=
  let cs := w.model.handlersOf r p
  ((cs.takeWhile fun c => !c.handler.follows d).foldl (handlerTurn listen r v)
    (w.mapModel (·.holdAll (cs.flatMap (·.handler.holds))))).model.get r p = w.model.get r p

end World

/-- Whether, if an operation writes the property of a deep watch, the handlers before that of the
deep watch leave the value as it is. -/
def Operation.Unhindered {γ : Type} (d : DeepId) (listen : Listener γ) (r : ObjectId) (p : String)
    (o : ObjectId) (op : Operation) (w : World γ) : Prop :=
  ∀ μ, op.mutation? w.model o = .ok μ → o = r → ∀ v, (p, v) ∈ μ.announcements →
    World.Unhindered d listen r p v
      ((w.mapModel (·.setStore μ.object μ.store)).mapModel (·.holdAll μ.holds))

namespace Following

/-- An operation of a run in which a deep watch `d` of the property `p` of `r` is set up at most
once. -/
inductive Step (d : DeepId) (r : ObjectId) (p : String) :
    Listener Journal → World Journal → World Journal → Prop
  /-- A write. -/
  | write {listen : Listener Journal} {w : World Journal} {o : ObjectId} {op : Operation}
      (unhindered : op.Unhindered d listen r p o (w.begin o op)) :
      Step d r p listen w (op.run listen o (w.begin o op))
  /-- The deep watch is set up by the name of the property. -/
  | bind {listen : Listener Journal} {w w' : World Journal} {o : ObjectId} {n : ScopedName}
      {callback : CallbackId} {id : Nat} (new : w.model.deeps.size = d)
      (owner : (Model.resolve o n w.model).1 = .ok r) (name : n.name = p)
      (binds : Scope.bindObject listen o n callback w = (.ok id, w')) : Step d r p listen w w'
  /-- Others are subscribed or released, or this deep watch is released. -/
  | other {listen : Listener Journal} {w : World Journal} {m : Model}
      (passes : Model.Passes d r p w.model m) : Step d r p listen w { w with model := m }
  /-- Something is told. -/
  | tell {listen : Listener Journal} {w : World Journal} {n : Notice} :
      Step d r p listen w (listen n w)

variable (d : DeepId) (r : ObjectId) (p : String)

/-- Whether a deep watch, if it is connected, watches the value of its property, or nothing because
it was refused that value. -/
def Current (w : World Journal) : Prop :=
  w.model.followers d r ≠ [] → w.model.watchedRoot d = (w.model.get r p).object? ∨
    w.model.watchedRoot d = none ∧ w.client.Refused d r p (w.model.get r p)

/-- What holds from an earlier to a later world: the deep watch stays placed and is not connected
again, and where it watches the value of its property it goes on to do so. -/
structure Onward (w w' : World Journal) : Prop where
  /-- The deep watch is placed. -/
  placed : w'.model.Placed d r p
  /-- If it existed, it exists, and no connection was added that moves it. -/
  kept : (w.model.deep? d).isSome = true → (w'.model.deep? d).isSome = true ∧
    ∀ o, (w'.model.followers d o).Sublist (w.model.followers d o)
  /-- If it was where its property is, it is so again. -/
  current : Current d r p w → Current d r p w'

/-- What every operation of a run stays within. -/
def Leads (w w' : World Journal) : Prop := w.model.Placed d r p → Onward d r p w w'

variable {d r p} {listen : Listener Journal} {w w' w'' : World Journal} {v : Value}

/-- One thing after another. -/
theorem Onward.trans (h : Onward d r p w w') (h' : Onward d r p w' w'') : Onward d r p w w'' where
  placed := h'.placed
  kept hd := by
    obtain ⟨hd', hsub⟩ := h.kept hd
    obtain ⟨hd'', hsub'⟩ := h'.kept hd'
    exact ⟨hd'', fun o => (hsub' o).trans (hsub o)⟩
  current hc := h'.current (h.current hc)

/-- A run of operations that stay within it does. -/
theorem Leads.steady : Steady (Leads d r p) where
  refl _ h := ⟨h, fun hd => ⟨hd, fun _ => .refl _⟩, id⟩
  trans h h' hplaced := (h hplaced).trans (h' (h hplaced).placed)

/-- A change of the model that adds nothing that moves the deep watch. -/
theorem onward_of_retains {m : Model} (h : Model.Retains d r w.model m)
    (hplaced : w.model.Placed d r p)
    (hcurrent : Current d r p w → Current d r p { w with model := m }) :
    Onward d r p w { w with model := m } :=
  ⟨hplaced.retains h, fun hd => ⟨h.isSome hd, h.followers⟩, hcurrent⟩

/-- A change of the model that does not concern the deep watch. -/
theorem leads_of_passes {m : Model} (h : Model.Passes d r p w.model m) :
    Leads d r p w { w with model := m } := by
  refine fun hplaced => onward_of_retains h.toRetains hplaced fun hcurrent hlive => ?_
  have hroot : m.watchedRoot d = w.model.watchedRoot d := h.root hlive
  show m.watchedRoot d = (m.get r p).object? ∨ m.watchedRoot d = none ∧ _
  rw [hroot, h.get]
  exact hcurrent (h.ne_nil hlive)

/-- Holding other things. -/
theorem Leads.loose : World.Loose (Leads d r p) := fun _ holds =>
  leads_of_passes (.of_rewatches (Model.rewatches_holds _ holds) rfl)

/-- Giving up what was held. -/
theorem Leads.releaseAll (hs : List Hold) (w : World Journal) :
    Leads d r p w (w.mapModel (·.releaseAll hs)) :=
  Leads.loose.releaseAll steady hs w

/-- To note anything but a write of the property. -/
theorem leads_of_note {e : Note} (he : ¬ e.Writes r p) :
    Leads d r p w { w with client := e :: w.client } := fun h =>
  ⟨h, fun hd => ⟨hd, fun _ => .refl _⟩, fun hcurrent hlive =>
    (hcurrent hlive).imp_right (And.imp_right (·.cons he))⟩

section Listening

variable (hlisten : ∀ n u, Leads d r p (u.hear n) (listen n u))

include hlisten

/-- To tell something. -/
theorem tell (n : Notice) (w : World Journal) : Leads d r p w (listen n w) :=
  Leads.steady.trans (leads_of_note (e := .told n w.model) not_false) (hlisten n w)

/-- To tell something while objects are held. -/
theorem tell_holding (hs : List Hold) (n : Notice) (w : World Journal) :
    Leads d r p w (w.holding hs (listen n)) :=
  Leads.loose.holding Leads.steady (tell hlisten n) hs w

/-- A handler that does not move the deep watch. -/
theorem run_other {h : Handler} (hh : h.follows d = false) (w : World Journal) :
    Leads d r p w (h.run listen v w) := by
  refine World.handler_tells Leads.steady (tell_holding hlisten) (tell hlisten) fun id hid => ?_
  have hne : d ≠ id := fun heq => by simp [Handler.follows, hid, heq] at hh
  exact leads_of_passes (.of_rewatches (Model.rewatches_retarget id v w.model)
    (Model.sameDeep_retarget hne v w.model).sameRoot)

/-- A watcher. -/
theorem run_watcher (o : ObjectId) (key : String) (v : Value) (x : Watcher) (w : World Journal) :
    Leads d r p w (x.run listen o key v w) :=
  World.watcher_tells Leads.steady (tell_holding hlisten) (tell hlisten) fun id _ =>
    leads_of_passes (.of_rewatches (Model.rewatches_mend id o x.seq key v w.model)
      (Model.sameRoot_mend d id o x.seq key v w.model))

/-- The handler of the deep watch, when it is given the value that is stored. -/
theorem run_own {c : Connection} (hc : c.handler.follows d = true) (hplaced : w.model.Placed d r p)
    (hdeep : (w.model.deep? d).isSome = true) (hv : w.model.get r p = v) :
    Onward d r p w (c.handler.run listen v w) ∧ Current d r p (c.handler.run listen v w) := by
  obtain ⟨deep, hd⟩ := Option.isSome_iff_exists.1 hdeep
  rw [Handler.eq_follow hc]
  unfold Handler.run
  dsimp only
  rw [hd]
  dsimp only
  cases hret : Model.retarget d v w.model with
  | mk result m =>
    have hr := Model.rewatches_retarget d v w.model
    rw [hret] at hr
    have hroot := Model.watchedRoot_retarget hdeep hret
    have hget : m.get r p = v := (congrArg (·.get p) (hr.store r)).trans hv
    -- The deep watch is where the property is, and stays there while its function is told.
    cases result with
    | ok =>
      have hcurrent : Current d r p { w with model := m } := by
        refine fun _ => .inl ?_
        rw [hroot, hget]
        rfl
      have hmoved := onward_of_retains (.of_rewatches hr) hplaced fun _ => hcurrent
      have htold :=
        (tell hlisten (.value deep.callback v) { w with model := m }) hmoved.placed
      exact ⟨hmoved.trans htold, htold.current hcurrent⟩
    | error fault =>
      -- It was refused the value just now, which is what the client notes first.
      obtain ⟨q, hq, hdeep'⟩ := Model.not_within_of_retarget hret
      have hrefuses : m.Refuses d r p (m.get r p) :=
        ⟨rfl, ⟨q, hget.trans hq, fun hwithin => hdeep' (hwithin.congr fun o => (hr.store o).symm)⟩,
          hroot⟩
      let u := World.hear (.warning (.replacement deep.key fault)) { w with model := m }
      have hcurrent : Current d r p u := by
        rw [← hplaced.named deep hd] at hrefuses ⊢
        exact fun _ => .inr ⟨hroot, [], fault, m, w.client, rfl, hrefuses, nofun⟩
      have hretains : Model.Retains d r w.model m := .of_rewatches hr
      have hmoved : Onward d r p w u :=
        ⟨hplaced.retains hretains, fun hd => ⟨hretains.isSome hd, hretains.followers⟩,
          fun _ => hcurrent⟩
      have hwarned := (hlisten (.warning (.replacement deep.key fault))
        { w with model := m }) hmoved.placed
      have htold := (tell hlisten (.value deep.callback v) _) hwarned.placed
      exact ⟨(hmoved.trans hwarned).trans htold, htold.current (hwarned.current hcurrent)⟩

/-! ## Dispatches -/

/-- The turn of a handler that does not move the deep watch. -/
theorem turn_other {c : Connection} (hc : c.handler.follows d = false) (o : ObjectId) (v : Value)
    (w : World Journal) : Leads d r p w (World.handlerTurn listen o v w c) := by
  unfold World.handlerTurn
  refine Leads.steady.trans ?_ (Leads.releaseAll _ _)
  split
  · exact run_other hlisten hc w
  · exact Leads.steady.refl w

/-- The turns of watchers. -/
theorem watchers_lead (o : ObjectId) (key : String) (v : Value) (xs : List Watcher)
    (w : World Journal) : Leads d r p w (xs.foldl (World.watcherTurn listen o key v) w) :=
  Leads.steady.foldl xs (fun x _ u => World.watcherTurn_within Leads.steady fun _ =>
    run_watcher hlisten o key v x u) w

/-- The turns of handlers that do not move the deep watch. -/
theorem handlers_lead {cs : List Connection} (h : ∀ c ∈ cs, c.handler.follows d = false)
    (o : ObjectId) (v : Value) (w : World Journal) :
    Leads d r p w (cs.foldl (World.handlerTurn listen o v) w) :=
  Leads.steady.foldl cs (fun _ hc u => turn_other hlisten (h _ hc) o v u) w

/-- A dispatch that the handler of the deep watch is not part of. -/
theorem notify_other {o : ObjectId} {key : String}
    (h : ∀ c ∈ w.model.handlersOf o key, c.handler.follows d = false) (v : Value) :
    Leads d r p w (w.notify listen o key v) := by
  rw [World.notify_eq]
  split
  · exact Leads.steady.trans (Leads.loose w _) (Leads.steady.trans
      (handlers_lead hlisten h o v _) (watchers_lead hlisten o key v _ _))
  · exact Leads.steady.refl w

/-- The turn of the handler of the deep watch, when it is given the value that is stored. -/
theorem turn_own {u : World Journal} {c : Connection} (hc : c ∈ w.model.followers d r)
    (honly : ∀ c' ∈ w.model.followers d r, c' = c) (hu : Onward d r p w u)
    (hknown : (w.model.deep? d).isSome = true) (hv : u.model.get r p = v) :
    Onward d r p u (World.handlerTurn listen r v u c) ∧
      Current d r p (World.handlerTurn listen r v u c) := by
  obtain ⟨hdeep, hsub⟩ := hu.kept hknown
  have hturn : Onward d r p u (if u.model.isConnected r ⟨c.key, c.seq⟩ then
      c.handler.run listen v u else u) ∧ Current d r p (if u.model.isConnected r ⟨c.key, c.seq⟩ then
      c.handler.run listen v u else u) := by
    split
    · exact run_own hlisten (List.mem_filter.1 hc).2 hu.placed hdeep hv
    · -- What moved the deep watch has been removed, and nothing else moves it.
      rename_i hgone
      refine ⟨(Leads.steady.refl u) hu.placed, fun hlive => absurd ?_ hgone⟩
      obtain ⟨c', hc'⟩ := List.exists_mem_of_ne_nil _ hlive
      obtain rfl := honly c' ((hsub r).subset hc')
      exact Model.isConnected_of_mem (List.mem_filter.1 hc').1
  obtain ⟨honward, hcurrent⟩ := hturn
  have hrelease := Leads.releaseAll (d := d) (r := r) (p := p) c.handler.holds _ honward.placed
  exact ⟨honward.trans hrelease, hrelease.current hcurrent⟩

end Listening

/-- After a dispatch of the property the deep watch is where the property is, if the value is the
stored one, and the handlers before its own leave it as it is. -/
theorem notify_own (hlisten : ∀ n u, Leads d r p (u.hear n) (listen n u))
    (hplaced : w.model.Placed d r p) (hv : w.model.followers d r ≠ [] → w.model.get r p = v)
    (hunhindered : World.Unhindered d listen r p v w) :
    Onward d r p w (w.notify listen r p v) ∧ Current d r p (w.notify listen r p v) := by
  by_cases hlive : w.model.followers d r = []
  · -- Nothing moves the deep watch, so that there is nothing to show of the world before.
    have hcurrent : Current d r p w := fun h => absurd hlive h
    have hnone : ∀ c ∈ w.model.handlersOf r p, c.handler.follows d = false := fun c hc =>
      Bool.eq_false_iff.2 fun hfollows => List.ne_nil_of_mem
        (List.mem_filter.2 ⟨(Model.mem_handlersOf.1 hc).1, hfollows⟩) hlive
    have honward := (notify_other (w := w) hlisten hnone v) hplaced
    exact ⟨honward, honward.current hcurrent⟩
  · obtain ⟨c, hown⟩ := List.exists_mem_of_ne_nil _ hlive
    obtain ⟨post, hsplit, hpre, hpost⟩ := hplaced.split hown
    rw [World.notify_eq, if_pos (hplaced.notifies hown)]
    unfold World.Unhindered at hunhindered
    dsimp only at hunhindered
    generalize (w.model.handlersOf r p).flatMap (·.handler.holds) = hs at hunhindered ⊢
    rw [hsplit, List.foldl_append, List.foldl_cons]
    have hbefore := (Leads.steady.trans (Leads.loose w (hs ++ w.model.holds))
      (handlers_lead hlisten hpre r v _)) hplaced
    obtain ⟨hturn, hcurrent⟩ := turn_own hlisten hown (fun c' hc' => hplaced.only hown hc') hbefore
      (hplaced.known r hlive) (hunhindered.trans (hv hlive))
    have hafter := (handlers_lead hlisten hpost r v _) hturn.placed
    have hwatchers := (watchers_lead hlisten r p v (w.model.watchersOf r) _) hafter.placed
    exact ⟨((hbefore.trans hturn).trans hafter).trans hwatchers,
      hwatchers.current (hafter.current hcurrent)⟩

/-! ## Writes -/

/-- The handlers of other keys and objects do not move the deep watch. -/
theorem not_follows {m : Model} (hplaced : m.Placed d r p) {o : ObjectId} {key : String}
    (h : o = r → key ≠ p) : ∀ c ∈ m.handlersOf o key, c.handler.follows d = false := by
  intro c hc
  obtain ⟨hconnected, hkey⟩ := Model.mem_handlersOf.1 hc
  refine Bool.eq_false_iff.2 fun hfollows => ?_
  obtain ⟨rfl, hp⟩ := hplaced.alone o c (List.mem_filter.2 ⟨hconnected, hfollows⟩)
  exact h rfl (hkey.symm.trans hp)

/-- What is told of other keys and objects. -/
theorem announce_other (hlisten : ∀ n u, Leads d r p (u.hear n) (listen n u))
    {o : ObjectId} {announcements : List (String × Value)}
    (h : ∀ a ∈ announcements, o = r → a.1 ≠ p) (hplaced : w.model.Placed d r p) :
    Onward d r p w (Mutation.announce listen o announcements w) := by
  unfold Mutation.announce
  induction announcements generalizing w with
  | nil => exact (Leads.steady.refl w) hplaced
  | cons a rest ih =>
    have hfirst := (notify_other hlisten (not_follows hplaced (h a List.mem_cons_self))
      a.2) hplaced
    exact hfirst.trans (ih (fun b hb => h b (List.mem_cons_of_mem a hb)) hfirst.placed)

/-- A write elsewhere. -/
theorem run_mutation_other (hlisten : ∀ n u, Leads d r p (u.hear n) (listen n u))
    {op : Operation} {μ : Mutation} (hμ : op.mutation? w.model μ.object = .ok μ)
    (hothers : ∀ a ∈ μ.announcements, μ.object = r → a.1 ≠ p) (hplaced : w.model.Placed d r p) :
    Onward d r p w (μ.run listen w) := by
  have hget : (w.model.setStore μ.object μ.store).get r p = w.model.get r p :=
    Operation.get_setStore_of_others hplaced.map hμ hothers
  have hretains : Model.Retains d r w.model (w.model.setStore μ.object μ.store) :=
    Model.retains_setStore w.model μ.store (Operation.isList_of_mutation? hμ)
  have hwritten := (leads_of_passes ⟨hretains, hget, fun _ => rfl⟩) hplaced
  have hhold := (Leads.loose (w.mapModel (·.setStore μ.object μ.store))
    (μ.holds ++ w.model.holds)) hwritten.placed
  have htold := announce_other hlisten hothers hhold.placed
  exact ((hwritten.trans hhold).trans htold).trans
    ((Leads.releaseAll μ.holds _) htold.placed)

/-- A write of the property. -/
theorem run_mutation_own (hlisten : ∀ n u, Leads d r p (u.hear n) (listen n u))
    {op : Operation} {μ : Mutation} (hμ : op.mutation? w.model r = .ok μ)
    (hannounced : μ.announcements = [(p, v)])
    (hunhindered : World.Unhindered d listen r p v
      ((w.mapModel (·.setStore μ.object μ.store)).mapModel (·.holdAll μ.holds)))
    (hplaced : w.model.Placed d r p) :
    Onward d r p w (μ.run listen w) ∧ Current d r p (μ.run listen w) := by
  obtain rfl := Operation.object_of_mutation? hμ
  let w₁ := (w.mapModel (·.setStore μ.object μ.store)).mapModel (·.holdAll μ.holds)
  have hrun : μ.run listen w =
      (w₁.notify listen μ.object p v).mapModel (·.releaseAll μ.holds) :=
    μ.run_of_single listen hannounced w
  have hretains : Model.Retains d μ.object w.model w₁.model := by
    have hstore := Model.retains_setStore (d := d) (r := μ.object) w.model μ.store
      (Operation.isList_of_mutation? hμ)
    exact ⟨hstore.followers, hstore.key, hstore.isList, hstore.keysOf⟩
  have hplaced₁ : w₁.model.Placed d μ.object p := hplaced.retains hretains
  -- The value is stored when the dispatch begins, if there is a connection and so an object.
  have hget (hlive : w₁.model.followers d μ.object ≠ []) : w₁.model.get μ.object p = v := by
    obtain ⟨c, hc⟩ := List.exists_mem_of_ne_nil _ hlive
    have hconnected := (List.mem_filter.1 ((hretains.followers μ.object).subset hc)).1
    have hexists : μ.object < w.model.objects.size :=
      Model.lt_size_of_isBound (Model.isBound_of_mem_connectionsOf hconnected)
    obtain ⟨key, v', hannounced', _, hstored⟩ := Operation.mutation?_of_map hplaced.map hμ
    obtain ⟨rfl, rfl⟩ := Prod.mk.inj (List.cons.inj (hannounced'.symm.trans hannounced)).1
    show ((w.model.setStore μ.object μ.store).store μ.object).get key = v'
    rw [Model.store_setStore_self hexists, hstored, if_pos rfl]
  obtain ⟨htold, hcurrent⟩ := notify_own hlisten hplaced₁ hget hunhindered
  have hrelease := Leads.releaseAll (d := d) (r := μ.object) (p := p) μ.holds _ htold.placed
  have hdone := htold.trans hrelease
  have hcurrent' := hrelease.current hcurrent
  rw [hrun]
  refine ⟨⟨hdone.placed, fun hd => ?_, fun _ => hcurrent'⟩, hcurrent'⟩
  obtain ⟨hd', hsub⟩ := hdone.kept (hretains.isSome hd)
  exact ⟨hd', fun o => (hsub o).trans (hretains.followers o)⟩

/-- A write. -/
theorem write_leads (hlisten : ∀ n u, Leads d r p (u.hear n) (listen n u)) {o : ObjectId}
    {op : Operation} (hunhindered : op.Unhindered d listen r p o (w.begin o op)) :
    Leads d r p w (op.run listen o (w.begin o op)) := by
  intro hplaced
  rw [Operation.run_eq]
  by_cases hwrites : Note.Writes r p (.wrote o op w.model)
  · -- What is noted ends a refusal, and the dispatch moves the deep watch to what is written.
    obtain ⟨rfl, μ, hμ, ⟨key, v⟩, hmem, rfl⟩ := hwrites
    have hμ' : op.mutation? (w.begin o op).model o = .ok μ := hμ
    rw [hμ']
    obtain ⟨key', v', hannounced, _⟩ := Operation.mutation?_of_map hplaced.map hμ
    have heq := hmem
    rw [hannounced] at heq
    obtain ⟨rfl, rfl⟩ := Prod.mk.inj (List.mem_singleton.1 heq)
    obtain ⟨honward, hcurrent⟩ := run_mutation_own hlisten hμ' hannounced
      (hunhindered μ hμ' rfl v hmem) hplaced
    exact ⟨honward.placed, honward.kept, fun _ => hcurrent⟩
  · have hnoted : Leads d r p w (w.begin o op) := leads_of_note hwrites
    refine (hnoted hplaced).trans ?_
    cases hμ : op.mutation? (w.begin o op).model o with
    | error => exact Leads.steady.refl _ hplaced
    | ok μ =>
      obtain rfl := Operation.object_of_mutation? hμ
      refine run_mutation_other hlisten hμ (fun a ha hobject hkey => hwrites ?_) hplaced
      exact ⟨hobject, μ, hobject ▸ hμ, a, ha, hkey⟩

/-! ## Setting up -/

/-- What setting up a deep watch consists of, if it succeeds. -/
theorem bindDeep_of_ok {m m' : Model} {o owner : ObjectId} {n : ScopedName} {callback : CallbackId}
    {id : Nat} (h : Model.bindDeep o n callback m = (.ok (id, owner, v), m')) :
    ∃ a b connections, Model.resolve o n m = (.ok owner, a) ∧ v = a.get owner n.name ∧
      Model.retarget a.deeps.size v (a.addDeep ⟨owner, n.name, callback, none⟩) = (.ok (), b) ∧
      m' = ((b.connect owner n.name (.follow a.deeps.size)).2.register o connections
        (some a.deeps.size)).2 := by
  cases Model.setUp_of_bindDeep h with
  | bound hres hret hconnect =>
    obtain ⟨_, rfl⟩ := Prod.mk.inj hconnect
    exact ⟨_, _, _, hres, rfl, hret, rfl⟩

/-- The function of a deep watch that is set up is told the value of the property at the end. -/
theorem bindObject_of_ok {γ : Type} {listen : Listener γ} {w w' : World γ} {o : ObjectId}
    {n : ScopedName} {callback : CallbackId} {id : Nat}
    (howner : (Model.resolve o n w.model).1 = .ok r)
    (h : Scope.bindObject listen o n callback w = (.ok id, w')) :
    ∃ v m, Model.bindDeep o n callback w.model = (.ok (id, r, v), m) ∧
      w' = World.holding (.object o :: .object r :: v.holds) (listen (.value callback v))
        { w with model := m } := by
  rw [Scope.bindObject_eq] at h
  split at h
  · cases h
  · rename_i id' owner v m hbind
    obtain ⟨hid, rfl⟩ := Prod.mk.inj h
    obtain rfl := Except.ok.inj hid
    obtain ⟨_, _, _, hres, _⟩ := bindDeep_of_ok hbind
    rw [hres] at howner
    obtain rfl := Except.ok.inj howner
    exact ⟨v, m, hbind, rfl⟩

/-- A deep watch that is set up is connected to its property and watches the value. -/
theorem placed_bindDeep {m m' : Model} {o : ObjectId} {n : ScopedName} {callback : CallbackId}
    {id : Nat} (hplaced : m.Placed m.deeps.size r n.name)
    (h : Model.bindDeep o n callback m = (.ok (id, r, v), m')) :
    m'.Placed m.deeps.size r n.name ∧
      m'.watchedRoot m.deeps.size = (m'.get r n.name).object? := by
  obtain ⟨a, b, connections, hres, rfl, hret, rfl⟩ := bindDeep_of_ok h
  have hresolve := Model.subscribes_resolve hres
  rw [← hresolve.deeps] at hplaced ⊢
  let d := a.deeps.size
  let a' := a.addDeep ⟨r, n.name, callback, none⟩
  have hmoved : a'.Rewatches b := (Model.rewatches_retarget _ _).of_run hret
  have hconnects :=
    (Model.subscribes_connect b r n.name (.follow d)).register o connections (some d)
  let m' := ((b.connect r n.name (.follow d)).2.register o connections (some d)).2
  have hstore (q : ObjectId) : m'.store q = m.store q := by
    rw [hconnects.store, hmoved.store, ← hresolve.store]
    rfl
  -- Nothing moved the deep watch before, for it was not there.
  have hnone (q : ObjectId) : m.followers d q = [] := by
    by_contra hne
    have hknown := hplaced.known q hne
    rw [hresolve.deeps, Model.deep?_size] at hknown
    cases hknown
  have hfollowers (q : ObjectId) : m'.followers d q =
      (b.newConnection r n.name (.follow d) q).filter (·.handler.follows d) := by
    have hold : b.connectionsOf q = m.connectionsOf q := by
      rw [hmoved.connectionsOf, ← List.append_nil (m.connectionsOf q)]
      exact hresolve.connectionsOf q
    unfold Model.followers
    rw [hconnects.connectionsOf, List.filter_append, hold]
    exact congrArg (· ++ _) (hnone q)
  have hdeep : (m'.deep? d).map DeepWatch.bare = some ⟨r, n.name, callback, none⟩ := by
    have hd := hmoved.deep? d
    rw [Model.deep?_addDeep, if_pos rfl] at hd
    unfold Model.deep? at hd ⊢
    rw [hconnects.deeps]
    exact hd
  refine ⟨?_, ?_⟩
  · constructor
    case alone =>
      intro q c hc
      rw [hfollowers] at hc
      obtain ⟨⟨hq, _⟩, rfl⟩ := Model.mem_newConnection.1 (List.mem_filter.1 hc).1
      exact ⟨hq, rfl⟩
    case once =>
      rw [hfollowers]
      refine Nat.le_trans (List.length_filter_le _ _) ?_
      unfold Model.newConnection
      split <;> simp
    case known =>
      intro _ _
      have hsome := congrArg Option.isSome hdeep
      rw [Option.isSome_map] at hsome
      exact hsome
    case named =>
      intro deep hd
      rw [hd] at hdeep
      exact congrArg DeepWatch.key (Option.some.inj hdeep)
    case map =>
      rw [hstore]
      exact hplaced.map
    case told =>
      intro keys hkeys
      rw [hconnects.keysOf, hmoved.keysOf] at hkeys
      exact hplaced.told keys ((hresolve.keysOf r).symm.trans hkeys)
  · have hroot := Model.watchedRoot_retarget (by rw [Model.deep?_addDeep, if_pos rfl]; rfl) hret
    have hget : m'.get r n.name = a.get r n.name :=
      congrArg (·.get n.name) ((hstore r).trans (hresolve.store r).symm)
    rw [hget]
    exact (Model.SameRoot.of_deeps hconnects.deeps).trans hroot

/-- A deep watch that is set up is where its property is. -/
theorem bind_leads (hlisten : ∀ n u, Leads d r p (u.hear n) (listen n u)) {o : ObjectId}
    {n : ScopedName} {callback : CallbackId} {id : Nat} (hnew : w.model.deeps.size = d)
    (howner : (Model.resolve o n w.model).1 = .ok r) (hname : n.name = p)
    (hbinds : Scope.bindObject listen o n callback w = (.ok id, w')) : Leads d r p w w' := by
  obtain ⟨v, m, hbind, rfl⟩ := bindObject_of_ok howner hbinds
  have htell := tell_holding hlisten (.object o :: .object r :: v.holds) (.value callback v)
    { w with model := m }
  intro hplaced
  subst hname hnew
  obtain ⟨hplaced', hroot⟩ := placed_bindDeep hplaced hbind
  have hbound : Onward w.model.deeps.size r n.name w { w with model := m } := by
    refine ⟨hplaced', fun hd => ?_, fun _ _ => .inl hroot⟩
    rw [Model.deep?_size] at hd
    cases hd
  exact hbound.trans (htell hplaced')

/-! ## Runs -/

/-- Every operation of a run. -/
theorem leads_of_step (hlisten : ∀ n u, Leads d r p (u.hear n) (listen n u))
    (h : Step d r p listen w w') : Leads d r p w w' := by
  cases h with
  | write unhindered => exact write_leads hlisten unhindered
  | bind new owner name binds => exact bind_leads hlisten new owner name binds
  | other passes => exact leads_of_passes passes
  | tell => exact tell hlisten _ w

/-- A deep watch that was the first to be connected to its property is not hindered. -/
theorem unhindered_of_first {γ : Type} {listen : Listener γ} {w : World γ} {c : Connection}
    (hfirst : (w.model.handlersOf r p).head? = some c) (hc : c.handler.follows d = true)
    (v : Value) : World.Unhindered d listen r p v w := by
  obtain ⟨cs, hcs⟩ := List.head?_eq_some_iff.1 hfirst
  unfold World.Unhindered
  dsimp only
  have hnone : (w.model.handlersOf r p).takeWhile (fun c => !c.handler.follows d) = [] := by
    rw [hcs, List.takeWhile_cons, hc]
    rfl
  rw [hnone]
  rfl

/-- Clients that write nothing hinder no deep watch. -/
theorem unhindered_of_passive {γ : Type} {listen : Listener γ}
    (hlisten : ∀ n w o, (listen n w).model.store o = w.model.store o) (d : DeepId) (r : ObjectId)
    (p : String) (v : Value) (w : World γ) : World.Unhindered d listen r p v w := by
  let I (w w' : World γ) : Prop := ∀ o, w'.model.store o = w.model.store o
  have hI : Steady I := ⟨fun _ _ => rfl, fun h h' o => (h' o).trans (h o)⟩
  have ha : World.Attends I := World.Quiet.attends fun _ _ hr => hr.store
  have hturns := hI.foldl (f := World.handlerTurn listen r v)
    ((w.model.handlersOf r p).takeWhile fun c => !c.handler.follows d)
    (fun c _ u => World.handlerTurn_within hI ha.loose fun _ =>
      World.handler_within hI ha hlisten v c.handler u)
    (w.mapModel (·.holdAll ((w.model.handlersOf r p).flatMap (·.handler.holds))))
  exact congrArg (·.get p) (hturns r)

/-- To connect another handler does not concern a deep watch. -/
theorem passes_connect {h : Handler} (hh : h.follows d = false) (m : Model) (o : ObjectId)
    (key : String) : Model.Passes d r p m (m.connect o key h).2 := by
  have hconnect := Model.subscribes_connect m o key h
  have hdeeps : (m.connect o key h).2.deeps = m.deeps := hconnect.deeps
  refine ⟨⟨fun q => ?_, ?_, by rw [hconnect.store], hconnect.keysOf r⟩,
    congrArg (·.get p) (hconnect.store r), fun _ => .of_deeps hdeeps⟩
  · have hnew : (m.newConnection o key h q).filter (·.handler.follows d) = [] := by
      refine List.filter_eq_nil_iff.2 fun c hc => ?_
      rw [(Model.mem_newConnection.1 hc).2, hh]
      exact Bool.false_ne_true
    unfold Model.followers
    rw [hconnect.connectionsOf, List.filter_append, hnew, List.append_nil]
  · unfold Model.deep?
    rw [hdeeps]

/-- When a run is over that began before a deep watch was set up, the deep watch, if it has not been
released, watches the object that is stored at its property, and nothing if no object is stored
there, or if it was refused that object when the property was written last. -/
theorem watchedRoot_eq (hmap : (w.model.store r).isList = false)
    (htold : ∀ keys, w.model.keysOf r = some keys → p ∈ keys)
    (hnew : w.model.deep? d = none) (hnone : ∀ o, w.model.followers d o = [])
    (moves : Journal.Moves (Step d r p) w w') (hlive : w'.model.followers d r ≠ []) :
    w'.model.watchedRoot d = (w'.model.get r p).object? ∨
      w'.model.watchedRoot d = none ∧ w'.client.Refused d r p (w'.model.get r p) := by
  have hleads : Leads d r p w w' :=
    moves.within Leads.steady fun _ _ _ hlisten h => leads_of_step hlisten h
  have hplaced : w.model.Placed d r p := Model.placed_of_new hmap htold hnew hnone
  exact (hleads hplaced).current (fun h => absurd (hnone r) h) hlive

/-- An object without members, two others, and one that is inside itself. -/
def fork : Model :=
  { objects := #[⟨.map Dict.empty, some {}⟩, ⟨.map Dict.empty, none⟩, ⟨.map Dict.empty, none⟩,
      ⟨.map (Dict.ofList [("loop", .object 3)]), none⟩]
    holds := [.object 0, .object 1, .object 2, .object 3] }

/-- A client that notes that it writes the property and what it is told. -/
def jotted (listen : Listener Journal) (q : ObjectId) (w : World Journal) : World Journal :=
  (Operation.set "p" (.object q)).run listen 0 (w.begin 0 (.set "p" (.object q)))

/-- A client that, when function 1 is told of the object 1, puts the object 2 in its place. -/
def reroute : Listener Journal := fun n w =>
  match n with
  | .value 1 (.object 1) => jotted World.hear 2 (w.hear n)
  | _ => w.hear n

/-- The fork when a property is watched, and the function 1 is connected to it then. -/
def forkBound : World Journal :=
  (Scope.bindObject World.hear 0 ⟨0, "p"⟩ 0 ⟨fork, []⟩).2.mapModel fun m =>
    (m.connect 0 "p" (.report ⟨1, none⟩)).2

/-- The fork when the object that is inside itself was written to the property. -/
def forkRefused : World Journal := jotted reroute 3 forkBound

/-- The fork when the object 1 has been written to the property after that, and replaced while it
was told of. -/
def forkRerouted : World Journal := jotted reroute 1 forkRefused

/-- The deep watch, which was the first to be connected, watches what is stored. It had been refused
the object that is inside itself. -/
theorem watchedRoot_eq_fork : forkRefused.model.watchedRoot 0 = none ∧
    (forkRerouted.model.get 0 "p").object? = some 2 ∧
    forkRerouted.model.watchedRoot 0 = (forkRerouted.model.get 0 "p").object? := by
  refine ⟨by decide +kernel, by decide +kernel, ?_⟩
  have hhears : ∀ n (w : World Journal) o, (World.hear n w).model.store o = w.model.store o :=
    fun _ _ _ => rfl
  have hreacts : ∀ n u, Journal.Moves (Step 0 0 "p") (u.hear n) (reroute n u) := by
    intro n u
    unfold reroute
    split
    · refine .next (fun _ _ => .done _) (.write fun _ _ _ _ _ => ?_) (.done _)
      exact unhindered_of_passive hhears 0 0 "p" _ _
    · exact .done _
  -- The deep watch is set up, then another handler is connected, then the property is written.
  have hbind : Step 0 0 "p" World.hear ⟨fork, []⟩
      (Scope.bindObject World.hear 0 ⟨0, "p"⟩ 0 ⟨fork, []⟩).2 := by
    have hok : Scope.bindObject World.hear 0 ⟨0, "p"⟩ 0 ⟨fork, []⟩ =
        (.ok 2, (Scope.bindObject World.hear 0 ⟨0, "p"⟩ 0 ⟨fork, []⟩).2) := rfl
    exact .bind (n := ⟨0, "p"⟩) rfl rfl rfl hok
  have hconnect : Step 0 0 "p" World.hear
      (Scope.bindObject World.hear 0 ⟨0, "p"⟩ 0 ⟨fork, []⟩).2 forkBound :=
    .other (passes_connect rfl _ _ _)
  have hwrite (q : ObjectId) (w : World Journal)
      (hfirst : (w.model.handlersOf 0 "p").head?.any (·.handler.follows 0) = true) :
      Step 0 0 "p" reroute w (jotted reroute q w) := by
    obtain ⟨c, hc, hfollows⟩ := (Option.any_eq_true _ _).1 hfirst
    refine .write fun μ _ _ v _ => unhindered_of_first ?_ hfollows v
    -- What is written, and what is held meanwhile, is no connection.
    have hsame : (((w.begin 0 (.set "p" (.object q))).mapModel
        (·.setStore μ.object μ.store)).mapModel (·.holdAll μ.holds)).model.handlersOf 0 "p" =
        w.model.handlersOf 0 "p" := by
      rw [Model.handlersOf_eq, Model.handlersOf_eq]
      exact congrArg _ (Model.connectionsOf_setStore w.model μ.object μ.store 0)
    exact (congrArg List.head? hsame).trans hc
  have hmoves : Journal.Moves (Step 0 0 "p") ⟨fork, []⟩ forkRerouted :=
    .next (fun _ _ => .done _) hbind <| .next (fun _ _ => .done _) hconnect <|
      .next hreacts (hwrite 3 forkBound (by decide +kernel)) <|
      .next hreacts (hwrite 1 forkRefused (by decide +kernel)) <| .done _
  have hnone : ∀ o, fork.followers 0 o = [] := fun o =>
    match o with
    | 0 | 1 | 2 | 3 | _ + 4 => rfl
  have hlive : forkRerouted.model.followers 0 0 ≠ [] :=
    List.ne_nil_of_length_eq_add_one (n := 0) (by decide +kernel)
  have hsome : forkRerouted.model.watchedRoot 0 ≠ none := by decide +kernel
  exact (watchedRoot_eq rfl (fun _ h => by cases h) rfl hnone hmoves hlive).resolve_right
    fun hrefused => hsome hrefused.1

/-- The fork when the same is done, but the function 1 was connected before the property is
watched. -/
def forkOvertaken : World Journal :=
  jotted reroute 1
    (Scope.bindObject World.hear 0 ⟨0, "p"⟩ 0 ⟨(fork.connect 0 "p" (.report ⟨1, none⟩)).2, []⟩).2

/-- A handler that was connected before that of the deep watch can overtake it: the deep watch is
left where the property was. -/
theorem follows_not_overtaken : forkOvertaken.model.followers 0 0 ≠ [] ∧
    forkOvertaken.model.get 0 "p" = .object 2 ∧ forkOvertaken.model.watchedRoot 0 = some 1 :=
  ⟨List.cons_ne_nil _ _, rfl, rfl⟩

/-- A client that only listens. -/
def quiet : Listener History := fun n => World.record (.told n)

end Following

end LiveScope
