import LiveScope.Proofs.Formula.Scope
import LiveScope.Proofs.World.Hearing

/-!
# A bound formula during a dispatch

`Formula.Tracked` says of a world that a formula is bound: its function was told a value, and each
of its fields has a connection that evaluates it again. Such a world is `Current` if the value told
last is the value of the formula now. In the middle of a dispatch it need not be. What holds
throughout is `Onward`: the formula stays bound, and a world that is current stays so.
`Formula.notify_within` says that any dispatch leads onward, and that the dispatch of a field makes
the world current, whatever the clients that are told of it do, if all that they do leads onward.
-/

namespace LiveScope

namespace Formula

/-- Whether a handler evaluates the formula. -/
def Runs (f : Formula) (h : Handler) : Prop := ∃ field, h = .recompute field f

/-- Whether a handler leaves the function of the formula to the formula. -/
def Allows (f : Formula) : Handler → Prop
  | .report s => f.sink ≠ s
  | .recompute _ g => f.sink = g.sink → g = f
  | .follow _ => True

/-- Whether the function of the formula is told by the formula alone. -/
structure Exclusive (f : Formula) (m : Model) : Prop where
  /-- A handler that tells the function evaluates the formula. -/
  handlers : ∀ o, ∀ c ∈ m.connectionsOf o, f.Allows c.handler
  /-- No deep watch tells it. -/
  deeps : ∀ d deep, m.deep? d = some deep → f.sink ≠ ⟨deep.callback, none⟩

/-- Whether all fields of the formula are connected and told of. They belong to maps, and their
values are no lists, except for what is `inside` the row. -/
structure Live (f : Formula) (outer : List ObjectId) (inside : ObjectId → Prop) (m : Model) :
    Prop where
  /-- A connection to each field evaluates the formula. -/
  connected : ∀ o key, f.Field outer o key → ∃ c ∈ m.connectionsOf o, c.key = key ∧ f.Runs c.handler
  /-- All changes of the objects of the fields are told of. -/
  unrestricted : ∀ o key, f.Field outer o key → m.keysOf o = none
  /-- These are maps. -/
  maps : ∀ o key, f.Field outer o key → (m.store o).isList = false
  /-- Their values are no lists, unless they are inside the row. -/
  settled : ∀ o key, f.Field outer o key → m.Settled inside (m.get o key)
  /-- What is in something inside is inside. -/
  closed : m.Closed inside

/-- A change that leaves all content, the connections of the formula and its function alone. -/
structure Spares (f : Formula) (m m' : Model) : Prop where
  /-- All content is the same. -/
  store : ∀ o, m'.store o = m.store o
  /-- Changes of the same keys are told of. -/
  keysOf : ∀ o, m'.keysOf o = m.keysOf o
  /-- Connections that evaluate the formula are kept. -/
  kept : ∀ o, ∀ c ∈ m.connectionsOf o, f.Runs c.handler → c ∈ m'.connectionsOf o
  /-- Those that are added do not evaluate it, and leave its function to it. -/
  added : ∀ o, ∀ c ∈ m'.connectionsOf o,
    c ∈ m.connectionsOf o ∨ f.Allows c.handler ∧ ¬ f.Runs c.handler
  /-- Deep watches that tell its function were there. -/
  deeps : ∀ d deep, m'.deep? d = some deep → f.sink = ⟨deep.callback, none⟩ →
    ∃ d' deep', m.deep? d' = some deep' ∧ deep'.callback = deep.callback

variable (f : Formula) (outer : List ObjectId) (inside : ObjectId → Prop)

/-- Whether the formula was not bound yet. -/
structure Silent (w : World History) : Prop where
  /-- Its function was told nothing. -/
  heard : f.sink.lastHeard w.client = none
  /-- No connection evaluates it. -/
  runs : ∀ o, ∀ c ∈ w.model.connectionsOf o, ¬ f.Runs c.handler

/-- Whether the formula is bound. -/
structure Tracked (w : World History) : Prop where
  /-- Its function was told something. -/
  heard : f.sink.lastHeard w.client ≠ none
  /-- All its fields are connected. -/
  live : f.Live outer inside w.model

/-- What holds of every world of a run. -/
structure Ready (w : World History) : Prop where
  /-- The function of the formula is told by it alone. -/
  exclusive : f.Exclusive w.model
  /-- It was not bound yet, or is bound. -/
  bound : f.Silent w ∨ f.Tracked outer inside w

/-- Whether the value told last is the value now, if the formula is bound and has one. -/
def Current (w : World History) : Prop :=
  f.Tracked outer inside w →
    ∀ v, f.valueAt outer w.model = .ok v → f.sink.lastHeard w.client = some v

/-- The formula stays bound, by the connections that it has. -/
structure Carries (w w' : World History) : Prop where
  /-- What holds of every world of a run holds. -/
  ready : f.Ready outer inside w'
  /-- If the formula was bound, it is. -/
  tracked : f.Tracked outer inside w → f.Tracked outer inside w'
  /-- Connections that evaluate it are kept. -/
  kept : ∀ o, ∀ c ∈ w.model.connectionsOf o, f.Runs c.handler → c ∈ w'.model.connectionsOf o

/-- What every operation of a run stays within. -/
def Onward (w w' : World History) : Prop :=
  f.Ready outer inside w →
    f.Carries outer inside w w' ∧ (f.Current outer inside w → f.Current outer inside w')

/-- What a formula relies on when a turn comes: once it is bound, its scope is in place. -/
def Intact (w : World History) : Prop :=
  f.sink.lastHeard w.client ≠ none → f.InScope outer w.model

instance Intact.decidable (w : World History) : Decidable (f.Intact outer w) :=
  inferInstanceAs (Decidable (_ → _))

variable {f outer inside} {m m' : Model} {w w' w'' : World History}

/-- A formula that was told of is bound. -/
theorem Ready.tracked (h : f.Ready outer inside w) (hheard : f.sink.lastHeard w.client ≠ none) :
    f.Tracked outer inside w :=
  h.bound.resolve_left fun hsilent => hheard hsilent.heard

/-- A formula with a connection is bound. -/
theorem Ready.tracked_of_runs (h : f.Ready outer inside w) {o : ObjectId} {c : Connection}
    (hc : c ∈ w.model.connectionsOf o) (hruns : f.Runs c.handler) : f.Tracked outer inside w :=
  h.bound.resolve_left fun hsilent => hsilent.runs o c hc hruns

/-- A handler that leaves the function of a formula to it and does not evaluate it does not tell the
function. -/
theorem Allows.avoids {h : Handler} (hallows : f.Allows h) (hruns : ¬ f.Runs h) :
    f.sink.Avoids h := by
  cases h with
  | report => exact hallows
  | recompute field g =>
    intro heq
    obtain rfl := hallows heq
    exact hruns ⟨field, rfl⟩
  | follow => trivial

/-- Nothing was done. -/
theorem Carries.refl (h : f.Ready outer inside w) : f.Carries outer inside w w :=
  ⟨h, id, fun _ _ hc _ => hc⟩

/-- One thing was done after another. -/
theorem Carries.trans (h : f.Carries outer inside w w') (h' : f.Carries outer inside w' w'') :
    f.Carries outer inside w w'' :=
  ⟨h'.ready, fun ht => h'.tracked (h.tracked ht),
    fun o c hc hruns => h'.kept o c (h.kept o c hc hruns) hruns⟩

/-- A run of operations that lead onward leads onward. -/
theorem Onward.steady : Steady (f.Onward outer inside) where
  refl _ h := ⟨.refl h, id⟩
  trans h h' hready := by
    obtain ⟨hcarries, hcurrent⟩ := h hready
    obtain ⟨hcarries', hcurrent'⟩ := h' hcarries.ready
    exact ⟨hcarries.trans hcarries', fun hc => hcurrent' (hcurrent hc)⟩

/-! ## What does not concern the formula -/

/-- Keeping up deep watches does not concern a formula. -/
theorem Spares.of_rewatches (f : Formula) (h : m.Rewatches m') : f.Spares m m' where
  store := h.store
  keysOf := h.keysOf
  kept o c hc _ := by
    rw [h.connectionsOf]
    exact hc
  added o c hc := by
    rw [h.connectionsOf] at hc
    exact .inl hc
  deeps d deep hd _ := by
    have hbare := (h.deep? d).symm.trans (congrArg (Option.map DeepWatch.bare) hd)
    obtain ⟨deep', hd', heq⟩ := Option.map_eq_some_iff.1 hbare
    have hcallback := congrArg DeepWatch.callback heq
    exact ⟨d, deep', hd', hcallback⟩

/-- The value of a formula does not change if the content does not. -/
theorem valueAt_of_spares (hrow : ∀ q, f.row.object? = some q → inside q)
    (hlive : f.Live outer inside m) (h : f.Spares m m') :
    f.valueAt outer m' = f.valueAt outer m := by
  refine valueAt_congr hlive.closed hrow (fun o key hfield => ⟨?_, hlive.settled o key hfield⟩)
    (fun o _ => h.store o) (fun o => by rw [h.store])
  unfold Model.get
  rw [h.store]

/-- What leaves a formula alone leads onward. -/
theorem onward_of_spares (hrow : ∀ q, f.row.object? = some q → inside q)
    (h : f.Spares w.model m) : f.Onward outer inside w { w with model := m } := by
  intro hready
  have htracked (ht : f.Tracked outer inside w) :
      f.Tracked outer inside { w with model := m } := by
    refine ⟨ht.heard, fun o key hfield => ?_, fun o key hfield => ?_, fun o key hfield => ?_,
      fun o key hfield => ?_, ?_⟩
    · obtain ⟨c, hc, hkey, hruns⟩ := ht.live.connected o key hfield
      exact ⟨c, h.kept o c hc hruns, hkey, hruns⟩
    · rw [h.keysOf]
      exact ht.live.unrestricted o key hfield
    · rw [h.store]
      exact ht.live.maps o key hfield
    · unfold Model.Settled Model.get
      simp only [h.store]
      exact ht.live.settled o key hfield
    · unfold Model.Closed
      simp only [h.store]
      exact ht.live.closed
  refine ⟨⟨⟨⟨fun o c hc => ?_, fun d deep hd hsink => ?_⟩, ?_⟩, htracked, h.kept⟩, ?_⟩
  · rcases h.added o c hc with hold | ⟨hallows, _⟩
    · exact hready.exclusive.handlers o c hold
    · exact hallows
  · obtain ⟨d', deep', hd', hcallback⟩ := h.deeps d deep hd hsink
    exact hready.exclusive.deeps d' deep' hd' (hcallback ▸ hsink)
  · rcases hready.bound with hsilent | ht
    · refine .inl ⟨hsilent.heard, fun o c hc => ?_⟩
      rcases h.added o c hc with hold | ⟨_, hruns⟩
      · exact hsilent.runs o c hold
      · exact hruns
    · exact .inr (htracked ht)
  · intro hcurrent ht v hv
    have ht' := hready.tracked ht.heard
    rw [valueAt_of_spares hrow ht'.live h] at hv
    exact hcurrent ht' v hv

/-- Changes that only rewatch lead onward. -/
theorem Onward.quiet (hrow : ∀ q, f.row.object? = some q → inside q) :
    World.Quiet (f.Onward outer inside) :=
  fun _ _ h => onward_of_spares hrow (.of_rewatches f h)

/-- What is known of a model and of the value heard last is known of the world. -/
theorem Carries.of_client (hmodel : w'.model = w.model)
    (hheard : f.sink.lastHeard w'.client = f.sink.lastHeard w.client)
    (h : f.Ready outer inside w) :
    f.Carries outer inside w w' ∧ (f.Current outer inside w → f.Current outer inside w') := by
  have htracked : f.Tracked outer inside w ↔ f.Tracked outer inside w' := by
    constructor
    · intro ht
      exact ⟨hheard ▸ ht.heard, hmodel ▸ ht.live⟩
    · intro ht
      exact ⟨hheard ▸ ht.heard, hmodel ▸ ht.live⟩
  refine ⟨⟨⟨hmodel ▸ h.exclusive, ?_⟩, htracked.1, fun o c hc _ => hmodel ▸ hc⟩, ?_⟩
  · refine h.bound.imp (fun hsilent => ⟨hheard ▸ hsilent.heard, ?_⟩) htracked.1
    rw [hmodel]
    exact hsilent.runs
  · intro hcurrent ht v hv
    rw [hmodel] at hv
    rw [hheard]
    exact hcurrent (htracked.2 ht) v hv

/-! ## Turns -/

section Turns

variable {listen : Listener History} {o : ObjectId} {key : String} {v : Value}

/-- To tell someone else leads onward. -/
theorem tell_other (hlisten : ∀ n u, f.Onward outer inside (u.record (.told n)) (listen n u))
    {n : Notice} (hn : f.sink.heard? n = none) (w : World History) :
    f.Onward outer inside w (listen n w) := by
  have hrecord : f.Onward outer inside w (w.record (.told n)) :=
    Carries.of_client rfl (Sink.lastHeard_told_of_none hn w.client)
  exact Onward.steady.trans hrecord (hlisten n w)

/-- Its function having been told a value, a formula whose fields are connected is bound. -/
theorem tracked_told (hlive : f.Live outer inside w.model) (v : Value) :
    f.Tracked outer inside (w.record (.told (f.sink.notice v))) := by
  refine ⟨?_, hlive⟩
  show f.sink.lastHeard (.told (f.sink.notice v) :: w.client) ≠ none
  rw [Sink.lastHeard_notice]
  exact Option.some_ne_none v

/-- A formula that is bound stays so when its function is told a value. -/
theorem carries_told (h : f.Ready outer inside w) (ht : f.Tracked outer inside w) (v : Value) :
    f.Carries outer inside w (w.record (.told (f.sink.notice v))) :=
  ⟨⟨h.exclusive, .inr (tracked_told ht.live v)⟩, fun _ => tracked_told ht.live v,
    fun _ _ hc _ => hc⟩

/-- To tell the function of a bound formula its value makes the world current. -/
theorem tell_own (hlisten : ∀ n u, f.Onward outer inside (u.record (.told n)) (listen n u))
    (hexclusive : f.Exclusive w.model) (hlive : f.Live outer inside w.model)
    (hv : f.valueAt outer w.model = .ok v) :
    f.Carries outer inside (w.record (.told (f.sink.notice v))) (listen (f.sink.notice v) w) ∧
      f.Current outer inside (listen (f.sink.notice v) w) := by
  obtain ⟨hcarries, hcurrent⟩ :=
    hlisten (f.sink.notice v) w ⟨hexclusive, .inr (tracked_told hlive v)⟩
  refine ⟨hcarries, hcurrent fun _ v' hv' => ?_⟩
  obtain rfl := Except.ok.inj (hv.symm.trans hv')
  exact Sink.lastHeard_notice f.sink v w.client

/-- To evaluate a bound formula again makes the world current. -/
theorem update_own (hrow : ∀ q, f.row.object? = some q → inside q) (hres : f.Resolved outer)
    (hlisten : ∀ n u, f.Onward outer inside (u.record (.told n)) (listen n u))
    (hready : f.Ready outer inside w) (ht : f.Tracked outer inside w)
    (hscope : f.InScope outer w.model) (field : String) :
    f.Carries outer inside w (f.update listen field w) ∧
      f.Current outer inside (f.update listen field w) := by
  unfold Formula.update
  rw [if_pos hscope.alive, eval_eq hres hscope.encloses]
  cases hv : f.valueAt outer w.model with
  | error fault =>
    dsimp only
    obtain ⟨hcarries, hcurrent⟩ := tell_other hlisten
      (n := .warning (.reevaluation field fault f.expr)) rfl w hready
    refine ⟨hcarries, hcurrent fun _ v hv' => ?_⟩
    rw [hv] at hv'
    cases hv'
  | ok v =>
    dsimp only
    unfold World.holding
    generalize .object f.scope :: v.holds = hs
    have hholds := Spares.of_rewatches f (Model.rewatches_holds w.model (hs ++ w.model.holds))
    obtain ⟨hhold, _⟩ := onward_of_spares hrow hholds hready
    have hv' := (valueAt_of_spares hrow ht.live hholds).trans hv
    obtain ⟨htell, hcurrent⟩ := tell_own hlisten (w := w.mapModel (·.holdAll hs))
      hhold.ready.exclusive (hhold.tracked ht).live hv'
    obtain ⟨hrelease, hcurrent'⟩ := Onward.quiet hrow _ _
      (Model.rewatches_releaseAll (listen (f.sink.notice v) (w.mapModel (·.holdAll hs))).model hs)
      htell.ready
    -- The function hears a value, so that the formula stays bound though the history changes.
    have htold := carries_told hhold.ready (hhold.tracked ht) v
    exact ⟨(hhold.trans htold).trans (htell.trans hrelease), hcurrent' hcurrent⟩

/-- What is done for others leads onward. -/
theorem bypasses (hrow : ∀ q, f.row.object? = some q → inside q)
    (hlisten : ∀ n u, f.Onward outer inside (u.record (.told n)) (listen n u)) :
    World.Bypasses f.sink listen (f.Onward outer inside) :=
  (Onward.quiet hrow).attends.bypasses Onward.steady fun _ hn => tell_other hlisten hn

/-- The handlers that do not evaluate the formula lead onward. -/
theorem run_other (hrow : ∀ q, f.row.object? = some q → inside q)
    (hlisten : ∀ n u, f.Onward outer inside (u.record (.told n)) (listen n u)) {h : Handler}
    (hallows : f.Allows h) (hruns : ¬ f.Runs h) (w : World History) :
    f.Onward outer inside w (h.run listen v w) := by
  intro hready
  exact World.handler_avoiding Onward.steady (bypasses hrow hlisten) (hallows.avoids hruns)
    hready.exclusive.deeps hready

/-- Watchers of whole objects lead onward. -/
theorem watcher_within (hrow : ∀ q, f.row.object? = some q → inside q)
    (hlisten : ∀ n u, f.Onward outer inside (u.record (.told n)) (listen n u)) (x : Watcher)
    (w : World History) : f.Onward outer inside w (x.run listen o key v w) := by
  intro hready
  exact World.watcher_avoiding Onward.steady (bypasses hrow hlisten) hready.exclusive.deeps hready

/-- The turns of handlers lead onward, and make the world current if one of them evaluates the
formula. Handlers that were connected when the dispatch began and evaluate the formula are still
connected when their turn comes. -/
theorem handlers_within (hrow : ∀ q, f.row.object? = some q → inside q) (hres : f.Resolved outer)
    (hlisten : ∀ n u, f.Onward outer inside (u.record (.told n)) (listen n u))
    {cs : List Connection} (hallows : ∀ c ∈ cs, f.Allows c.handler)
    (hkept : ∀ c ∈ cs, f.Runs c.handler → c ∈ w.model.connectionsOf o)
    (hturns : World.HandlerTurns (f.Intact outer) listen o v cs w)
    (hready : f.Ready outer inside w) :
    f.Carries outer inside w (cs.foldl (World.handlerTurn listen o v) w) ∧
      (f.Current outer inside w ∨ (∃ c ∈ cs, f.Runs c.handler) →
        f.Current outer inside (cs.foldl (World.handlerTurn listen o v) w)) := by
  induction cs generalizing w with
  | nil =>
    refine ⟨.refl hready, fun h => h.resolve_right ?_⟩
    rintro ⟨_, hc, _⟩
    cases hc
  | cons c cs ih =>
    obtain ⟨hintact, hrest⟩ := hturns
    have hturn : f.Carries outer inside w (World.handlerTurn listen o v w c) ∧
        (f.Current outer inside w ∨ f.Runs c.handler →
          f.Current outer inside (World.handlerTurn listen o v w c)) := by
      by_cases hruns : f.Runs c.handler
      · -- The formula is evaluated in the turn, so that the world is current after it.
        have hmem := hkept c List.mem_cons_self hruns
        have ht := hready.tracked_of_runs hmem hruns
        obtain ⟨field, hhandler⟩ := hruns
        obtain ⟨hupdate, hcurrent⟩ :=
          update_own hrow hres hlisten hready ht (hintact ht.heard) field
        obtain ⟨hrelease, hcurrent'⟩ := Onward.quiet hrow _ _
          (Model.rewatches_releaseAll (f.update listen field w).model c.handler.holds) hupdate.ready
        unfold World.handlerTurn
        rw [if_pos (Model.isConnected_of_mem hmem), hhandler]
        rw [hhandler] at hrelease hcurrent'
        exact ⟨hupdate.trans hrelease, fun _ => hcurrent' hcurrent⟩
      · -- The turn of another handler leads onward, and keeps the world current if it is.
        have honward : f.Onward outer inside w (World.handlerTurn listen o v w c) :=
          World.handlerTurn_within Onward.steady (Onward.quiet hrow).attends.loose
            fun _ => run_other hrow hlisten (hallows c List.mem_cons_self) hruns w
        obtain ⟨hcarries, hcurrent⟩ := honward hready
        exact ⟨hcarries, fun h => hcurrent (h.resolve_right hruns)⟩
    obtain ⟨hcarries, hcurrent⟩ := hturn
    obtain ⟨hcarries', hcurrent'⟩ := ih (fun c' hc' => hallows c' (List.mem_cons_of_mem _ hc'))
      (fun c' hc' hruns => hcarries.kept o c' (hkept c' (List.mem_cons_of_mem _ hc') hruns) hruns)
      hrest hcarries.ready
    refine ⟨hcarries.trans hcarries', fun h => hcurrent' ?_⟩
    rcases h with h | ⟨c', hc', hruns⟩
    · exact .inl (hcurrent (.inl h))
    · rcases List.mem_cons.1 hc' with rfl | hc'
      · exact .inl (hcurrent (.inr hruns))
      · exact .inr ⟨c', hc', hruns⟩

/-- A dispatch leads onward, and makes the world current if it is that of a field. -/
theorem notify_within (hrow : ∀ q, f.row.object? = some q → inside q) (hres : f.Resolved outer)
    (hlisten : ∀ n u, f.Onward outer inside (u.record (.told n)) (listen n u))
    (hturns : w.NotifyTurns (f.Intact outer) listen o key v) (hready : f.Ready outer inside w) :
    f.Carries outer inside w (w.notify listen o key v) ∧
      (f.Current outer inside w ∨ f.Tracked outer inside w ∧ f.Field outer o key →
        f.Current outer inside (w.notify listen o key v)) := by
  rw [World.notify_eq]
  by_cases hnotifies : w.model.notifies o key = true
  · rw [if_pos hnotifies]
    obtain ⟨hhandlers, _⟩ := hturns hnotifies
    generalize (w.model.handlersOf o key).flatMap (·.handler.holds) = hs at hhandlers ⊢
    have hmem (c : Connection) (hc : c ∈ w.model.handlersOf o key) :
        c ∈ w.model.connectionsOf o := (Model.mem_handlersOf.1 hc).1
    obtain ⟨hhold, hcurrent⟩ := Onward.quiet hrow _ _
      (Model.rewatches_holds w.model (hs ++ w.model.holds)) hready
    obtain ⟨hcarries, hcurrent'⟩ := handlers_within (v := v) (w := w.mapModel (·.holdAll hs)) hrow
      hres hlisten (fun c hc => hready.exclusive.handlers o c (hmem c hc)) (fun c hc _ => hmem c hc)
      hhandlers hhold.ready
    obtain ⟨hwatchers, hcurrent''⟩ := Onward.steady.foldl (f := World.watcherTurn listen o key v)
      (w.model.watchersOf o)
      (fun x _ u => World.watcherTurn_within Onward.steady fun _ =>
        watcher_within hrow hlisten x u) _ hcarries.ready
    refine ⟨(hhold.trans hcarries).trans hwatchers, fun h => hcurrent'' (hcurrent' ?_)⟩
    rcases h with h | ⟨ht, hfield⟩
    · exact .inl (hcurrent h)
    · obtain ⟨c, hc, hkey, hruns⟩ := ht.live.connected o key hfield
      exact .inr ⟨c, Model.mem_handlersOf.2 ⟨hc, hkey⟩, hruns⟩
  · rw [if_neg hnotifies]
    refine ⟨.refl hready, fun h => h.resolve_right ?_⟩
    rintro ⟨ht, hfield⟩
    obtain ⟨c, hc, hkey, _⟩ := ht.live.connected o key hfield
    exact hnotifies (Model.notifies_of_mem hc
        (Model.opens_of_none (ht.live.unrestricted o key hfield) key))

end Turns

end Formula

end LiveScope
