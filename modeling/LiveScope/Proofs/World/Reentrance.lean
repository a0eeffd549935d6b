import LiveScope.Proofs.Model.Watching
import LiveScope.Proofs.World.Mutation

/-!
# Clients that change the model while they are told of changes

The client of a run keeps a history: what it was told, and what it asked for and released. In a run
(`Moves`) one operation follows another, and each operation is performed with a listener of its own,
which may do anything that is a run again. What an operation may be is a parameter. Since a listener
sees the history and is told through it, every client that calls back in some order, to any finite
depth, is such a run.

`Moves.within` is the induction: a steady relation that every operation stays within, provided that
its listener does, holds from the start to the end of a run. The lemmas after it reduce what the
library does to what it tells and to changes that only rewatch.
-/

namespace LiveScope

/-- What a history is made of. -/
inductive Event where
  /-- The client was told something. -/
  | told (notice : Notice)
  /-- A function was handed to the binding of an object, to be subscribed. -/
  | asked (o : ObjectId) (callback : CallbackId)
  /-- The binding of an object gave out a number for the subscription of a function. -/
  | bound (o : ObjectId) (id : Nat) (callback : CallbackId)
  /-- A registration of an object is released; this is the model before. -/
  | released (o : ObjectId) (id : Nat) (before : Model)
  /-- All that is bound to an object is released; this is the model before. -/
  | cleared (o : ObjectId) (before : Model)

/-- What a client knows, the latest event first. -/
abbrev History : Type := List Event

namespace World

/-- One more event. -/
def record (e : Event) (w : World History) : World History := { w with client := e :: w.client }

end World

/-- From one world to another by operations, each performed with a listener that goes on in the same
way whenever it is told something. -/
inductive Moves (Op : Listener History → World History → World History → Prop) :
    World History → World History → Prop
  | done (w : World History) : Moves Op w w
  | next {listen : Listener History} {w w' w'' : World History}
      (reacts : ∀ n u, Moves Op (u.record (.told n)) (listen n u)) (step : Op listen w w')
      (rest : Moves Op w' w'') : Moves Op w w''

/-- A relation that every operation stays within if its listener does holds over a run. -/
theorem Moves.within {Op : Listener History → World History → World History → Prop}
    {I : World History → World History → Prop} (hI : Steady I)
    (h : ∀ listen w w', (∀ n u, I (u.record (.told n)) (listen n u)) → Op listen w w' → I w w')
    {w w' : World History} (moves : Moves Op w w') : I w w' := by
  induction moves with
  | done w => exact hI.refl w
  | next _ step _ ih ihrest => exact hI.trans (h _ _ _ ih step) ihrest

namespace World

variable {γ : Type}

/-- Whether a relation holds over every change of the model that only rewatches. -/
def Quiet (I : World γ → World γ → Prop) : Prop :=
  ∀ w m, Model.Rewatches w.model m → I w { w with model := m }

variable {I : World γ → World γ → Prop} {listen : Listener γ}

/-- Whether a relation holds over every change of what is held. -/
def Loose (I : World γ → World γ → Prop) : Prop :=
  ∀ w holds, I w { w with model := { w.model with holds } }

/-- What is given up is a change of what is held. -/
theorem Loose.releaseAll (hI : Steady I) (hl : Loose I) (hs : List Hold) (w : World γ) :
    I w (w.mapModel (·.releaseAll hs)) := by
  induction hs generalizing w with
  | nil => exact hI.refl w
  | cons h hs ih => exact hI.trans (hl w (w.model.holds.erase h)) (ih _)

/-- What is done while objects are held. -/
theorem Loose.holding (hI : Steady I) (hl : Loose I) {f : World γ → World γ}
    (hf : ∀ w, I w (f w)) (hs : List Hold) (w : World γ) : I w (w.holding hs f) :=
  hI.trans (hl w (hs ++ w.model.holds)) (hI.trans (hf _) (hl.releaseAll hI hs _))

/-- Whether a relation holds over what is done to a model while a change is told of: holding things,
and moving and mending deep watches. -/
structure Attends (I : World γ → World γ → Prop) : Prop where
  /-- Something is held or given up. -/
  loose : Loose I
  /-- A deep watch is moved. -/
  retarget : ∀ w id v, I w { w with model := (Model.retarget id v w.model).2 }
  /-- A deep watch is mended. -/
  mend : ∀ w id o seq key v, I w { w with model := (Model.mend id o seq key v w.model).2 }

/-- A relation that holds over whatever only rewatches holds over these. -/
theorem Quiet.attends (hq : Quiet I) : Attends I where
  loose w holds := hq w _ (Model.rewatches_holds w.model holds)
  retarget w id v := hq w _ (Model.rewatches_retarget id v w.model)
  mend w id o seq key v := hq w _ (Model.rewatches_mend id o seq key v w.model)

/-- A history goes on any number of times. -/
theorem history_steady : Steady fun w w' : World History => w.client <:+ w'.client :=
  ⟨fun _ => List.suffix_rfl, fun h h' => h.trans h'⟩

/-- What is done to a model is no part of the history. -/
theorem history_attends : Attends fun w w' : World History => w.client <:+ w'.client :=
  Quiet.attends fun _ _ _ => List.suffix_rfl

/-- The turn of a handler that was connected when a dispatch began. -/
def handlerTurn (listen : Listener γ) (o : ObjectId) (v : Value) (w : World γ) (c : Connection) :
    World γ :=
  (if w.model.isConnected o ⟨c.key, c.seq⟩ then c.handler.run listen v w else w).mapModel
    (·.releaseAll c.handler.holds)

/-- The turn of a watcher that was registered when a dispatch began. -/
def watcherTurn (listen : Listener γ) (o : ObjectId) (key : String) (v : Value) (w : World γ)
    (x : Watcher) : World γ :=
  if w.model.isWatching o x.seq then x.run listen o key v w else w

/-- A dispatch is the turns of handlers and then those of watchers. -/
theorem notify_eq (listen : Listener γ) (o : ObjectId) (key : String) (v : Value) (w : World γ) :
    w.notify listen o key v =
      if w.model.notifies o key then
        (w.model.watchersOf o).foldl (watcherTurn listen o key v)
          ((w.model.handlersOf o key).foldl (handlerTurn listen o v)
            (w.mapModel (·.holdAll ((w.model.handlersOf o key).flatMap (·.handler.holds)))))
      else w :=
  rfl

/-- The turn of a handler stays within a relation if running it does. -/
theorem handlerTurn_within (hI : Steady I) (hl : Loose I) {o : ObjectId} {v : Value}
    {c : Connection} {w : World γ}
    (h : w.model.isConnected o ⟨c.key, c.seq⟩ = true → I w (c.handler.run listen v w)) :
    I w (handlerTurn listen o v w c) := by
  unfold handlerTurn
  refine hI.trans ?_ (hl.releaseAll hI _ _)
  split
  · exact h ‹_›
  · exact hI.refl w

/-- The turn of a watcher stays within a relation if running it does. -/
theorem watcherTurn_within (hI : Steady I) {o : ObjectId} {key : String} {v : Value} {x : Watcher}
    {w : World γ} (h : w.model.isWatching o x.seq = true → I w (x.run listen o key v w)) :
    I w (watcherTurn listen o key v w x) := by
  unfold watcherTurn
  split
  · exact h ‹_›
  · exact hI.refl w

/-! ## Relations that listening stays within -/

section Telling

variable (hI : Steady I) (hheld : ∀ hs n w, I w (w.holding hs (listen n)))

include hI hheld

/-- Telling of a deep watch does no more than tell. -/
theorem deep_tells (deep : DeepWatch) (w : World γ) : I w (deep.tell listen w) := by
  unfold DeepWatch.tell
  split
  · exact hheld _ _ w
  · exact hI.refl w

variable (hlisten : ∀ n w, I w (listen n w))

include hlisten

/-- Running a handler does no more than tell, and move its deep watch if it has one. -/
theorem handler_tells {v : Value} {h : Handler} {w : World γ}
    (hmoved : ∀ id, h = .follow id → I w { w with model := (Model.retarget id v w.model).2 }) :
    I w (h.run listen v w) := by
  cases h with
  | report sink => exact hlisten _ w
  | recompute field f =>
    unfold Handler.run Formula.update
    dsimp only
    split
    · split
      · exact hheld _ _ w
      · exact hlisten _ w
    · exact hI.refl w
  | follow id =>
    unfold Handler.run
    dsimp only
    split
    · exact hI.refl w
    · refine hI.trans (hI.trans (hmoved id rfl) ?_) (hlisten _ _)
      split
      · exact hI.refl _
      · exact hlisten _ _

/-- Running a watcher does no more than tell, and mend its deep watch if it has one. -/
theorem watcher_tells {o : ObjectId} {key : String} {v : Value} {x : Watcher} {w : World γ}
    (hmended : ∀ id, x.watch = .mend id →
      I w { w with model := (Model.mend id o x.seq key v w.model).2 }) :
    I w (x.run listen o key v w) := by
  unfold Watcher.run
  split
  · exact hlisten _ w
  · rename_i id hwatch
    split
    · exact hI.refl w
    · refine hI.trans (hI.trans (hmended id hwatch) ?_) (deep_tells hI hheld _ _)
      dsimp only
      split
      · exact hI.refl _
      · exact hlisten _ _

end Telling

/-- A dispatch does no more than tell, move deep watches to the value, and mend them with it. -/
theorem notify_tells (hI : Steady I) (hl : Loose I) (hlisten : ∀ n w, I w (listen n w))
    {o : ObjectId} {key : String} {v : Value}
    (hmoved : ∀ u id, I u { u with model := (Model.retarget id v u.model).2 })
    (hmended : ∀ u id seq, I u { u with model := (Model.mend id o seq key v u.model).2 })
    (w : World γ) : I w (w.notify listen o key v) := by
  have hheld (hs : List Hold) (n : Notice) (u : World γ) : I u (u.holding hs (listen n)) :=
    hl.holding hI (hlisten n) hs u
  rw [notify_eq]
  split
  · refine hI.trans (hI.trans (hl w _) (hI.foldl _ (fun c _ u => ?_) _))
      (hI.foldl _ (fun x _ u => ?_) _)
    · exact handlerTurn_within hI hl fun _ =>
        handler_tells hI hheld hlisten fun id _ => hmoved u id
    · exact watcherTurn_within hI fun _ =>
        watcher_tells hI hheld hlisten fun id _ => hmended u id x.seq
  · exact hI.refl w

section Listening

variable (hI : Steady I) (ha : Attends I) (hlisten : ∀ n w, I w (listen n w))

include hI ha hlisten

/-- Running a handler does no more than attend to deep watches and tell. -/
theorem handler_within (v : Value) (h : Handler) (w : World γ) : I w (h.run listen v w) :=
  handler_tells hI (fun hs n u => ha.loose.holding hI (hlisten n) hs u) hlisten
    fun id _ => ha.retarget w id v

/-- Telling of a deep watch does no more than tell. -/
theorem tell_within (deep : DeepWatch) (w : World γ) : I w (deep.tell listen w) :=
  deep_tells hI (fun hs n u => ha.loose.holding hI (hlisten n) hs u) deep w

/-- Running a watcher does no more than attend to deep watches and tell. -/
theorem watcher_within (o : ObjectId) (key : String) (v : Value) (x : Watcher) (w : World γ) :
    I w (x.run listen o key v w) :=
  watcher_tells hI (fun hs n u => ha.loose.holding hI (hlisten n) hs u) hlisten
    fun id _ => ha.mend w id o x.seq key v

/-- A dispatch does no more than attend to deep watches and tell. -/
theorem notify_within (o : ObjectId) (key : String) (v : Value) (w : World γ) :
    I w (w.notify listen o key v) :=
  notify_tells hI ha.loose hlisten (fun u id => ha.retarget u id v)
    (fun u id seq => ha.mend u id o seq key v) w

end Listening

/-! ## What holds at every turn -/

/-- Whether `p` holds whenever the turn of a handler comes. -/
def HandlerTurns (p : World γ → Prop) (listen : Listener γ) (o : ObjectId) (v : Value) :
    List Connection → World γ → Prop
  | [], _ => True
  | c :: cs, w => p w ∧ HandlerTurns p listen o v cs (handlerTurn listen o v w c)

/-- Whether `p` holds whenever the turn of a watcher comes. -/
def WatcherTurns (p : World γ → Prop) (listen : Listener γ) (o : ObjectId) (key : String)
    (v : Value) : List Watcher → World γ → Prop
  | [], _ => True
  | x :: xs, w => p w ∧ WatcherTurns p listen o key v xs (watcherTurn listen o key v w x)

/-- Whether `p` holds at every turn of a dispatch. -/
def NotifyTurns (p : World γ → Prop) (listen : Listener γ) (o : ObjectId) (key : String)
    (v : Value) (w : World γ) : Prop :=
  w.model.notifies o key = true →
    let cs := w.model.handlersOf o key
    let w' := w.mapModel (·.holdAll (cs.flatMap (·.handler.holds)))
    HandlerTurns p listen o v cs w' ∧
      WatcherTurns p listen o key v (w.model.watchersOf o) (cs.foldl (handlerTurn listen o v) w')

section Deciding

variable {p : World γ → Prop} [DecidablePred p] {listen : Listener γ} {o : ObjectId} {key : String}
  {v : Value}

instance HandlerTurns.decidable : ∀ cs w, Decidable (HandlerTurns p listen o v cs w)
  | [], _ => .isTrue trivial
  | c :: cs, w =>
    have := HandlerTurns.decidable cs (handlerTurn listen o v w c)
    inferInstanceAs (Decidable (p w ∧ HandlerTurns p listen o v cs _))

instance WatcherTurns.decidable : ∀ xs w, Decidable (WatcherTurns p listen o key v xs w)
  | [], _ => .isTrue trivial
  | x :: xs, w =>
    have := WatcherTurns.decidable xs (watcherTurn listen o key v w x)
    inferInstanceAs (Decidable (p w ∧ WatcherTurns p listen o key v xs _))

instance NotifyTurns.decidable (w : World γ) : Decidable (w.NotifyTurns p listen o key v) :=
  inferInstanceAs (Decidable (_ → _ ∧ _))

end Deciding

end World

/-- A write does no more than change a content, attend to deep watches and tell. -/
theorem Operation.run_within {γ : Type} {I : World γ → World γ → Prop} {listen : Listener γ}
    (hI : Steady I) (ha : World.Attends I) (hlisten : ∀ n w, I w (listen n w)) {o : ObjectId}
    {op : Operation} {w : World γ} (hwrite : ∀ μ, op.mutation? w.model o = .ok μ →
      I w (w.mapModel (·.setStore μ.object μ.store))) : I w (op.run listen o w) := by
  rw [run_eq]
  split
  · rename_i μ hμ
    refine hI.trans (hwrite μ hμ) (ha.loose.holding hI (fun u => ?_) _ _)
    exact hI.foldl _ (fun a _ u => World.notify_within hI ha hlisten μ.object a.1 a.2 u) u
  · exact hI.refl w

/-- Whether `p` holds at every turn while announcements are told of. -/
def Mutation.AnnounceTurns {γ : Type} (p : World γ → Prop) (listen : Listener γ) (o : ObjectId) :
    List (String × Value) → World γ → Prop
  | [], _ => True
  | (key, v) :: rest, w =>
    w.NotifyTurns p listen o key v ∧ AnnounceTurns p listen o rest (w.notify listen o key v)

/-- Whether `p` holds whenever, during an operation, the turn of a handler or watcher comes. -/
def Operation.Turns {γ : Type} (p : World γ → Prop) (listen : Listener γ) (o : ObjectId)
    (op : Operation) (w : World γ) : Prop :=
  ∀ μ, op.mutation? w.model o = .ok μ →
    Mutation.AnnounceTurns p listen μ.object μ.announcements
      ((w.mapModel (·.setStore μ.object μ.store)).mapModel (·.holdAll μ.holds))

section Deciding

variable {γ : Type} {p : World γ → Prop} [DecidablePred p] {listen : Listener γ} {o : ObjectId}

instance Mutation.AnnounceTurns.decidable :
    ∀ announcements w, Decidable (Mutation.AnnounceTurns p listen o announcements w)
  | [], _ => .isTrue trivial
  | (key, v) :: rest, w =>
    have := Mutation.AnnounceTurns.decidable rest (w.notify listen o key v)
    inferInstanceAs (Decidable (w.NotifyTurns p listen o key v ∧
      Mutation.AnnounceTurns p listen o rest _))

instance Operation.Turns.decidable (op : Operation) (w : World γ) :
    Decidable (op.Turns p listen o w) :=
  match h : op.mutation? w.model o with
  | .ok _ => decidable_of_iff _
      ⟨fun hturns _ hμ => Except.ok.inj (h.symm.trans hμ) ▸ hturns, fun hturns => hturns _ h⟩
  | .error _ => .isTrue fun _ hμ => nomatch h.symm.trans hμ

end Deciding

end LiveScope
