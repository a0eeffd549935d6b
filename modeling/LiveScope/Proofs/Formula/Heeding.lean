import LiveScope.Proofs.Formula.Attachment

/-!
# Formulas stay attached to where they were bound

Which object encloses which may be data: a scope that nothing is linked to is enclosed by its member
`parent`, and that can be written like any other member. A formula does not follow such a write.
`Formula.stays_attached` says what happens instead: the formula stays attached to where its fields
belonged when it was bound, writes of these places and no others call it, and what its function was
told last is what came of evaluating it after the last of them. `Formula.not_told_relodged` is a run
in which that is another value than the formula has.

What carries the induction over a run is `Formula.Lasts`: whatever is done as a whole leaves the
formula attached and its scope held, and heeded if it was. A write of a place where the formula is
attached leaves it unheeded until its handler has its turn. The scope is held then too, although
everything that is held for a dispatch is given up in it: the holds are counted (`World.Keeps`).
-/

namespace LiveScope

namespace Formula

variable (f : Formula) (made : ObjectId → List Connection) (m₀ : Model)

/-- Whether a formula is attached by these connections alone, to keys that are told of, and its
function is left to it. -/
structure Kept (m : Model) : Prop where
  /-- Its function is left to it. -/
  exclusive : f.Exclusive m
  /-- These connections evaluate it, and no others do. -/
  runs : ∀ o c, c ∈ made o ↔ c ∈ m.connectionsOf o ∧ f.Runs c.handler
  /-- Changes of their keys are told of. -/
  opens : ∀ o, ∀ c ∈ made o, m.Opens o c.key

/-- What holds of every world of a run: the scope of the formula is held, too. -/
structure Proper (w : World Journal) : Prop where
  /-- The formula is attached by its connections alone. -/
  kept : f.Kept made w.model
  /-- Its scope is held. -/
  held : .object f.scope ∈ w.model.holds
  /-- Its scope exists. -/
  present : f.scope < w.model.objects.size

/-- What is made of a world by something that is done as a whole. -/
structure Sustains (w w' : World Journal) : Prop where
  /-- The formula is attached by its connections alone. -/
  kept : f.Kept made w'.model
  /-- Its scope is held as often at least. -/
  keeps : World.Keeps (.object f.scope) w w'
  /-- All that was written was heeded, if it had been before. -/
  heeded : f.Heeded m₀ w.client → f.Heeded m₀ w'.client

/-- What everything that is done as a whole stays within. -/
def Lasts (w w' : World Journal) : Prop := f.Proper made w → f.Sustains made m₀ w w'

variable {f made m₀} {m m' : Model} {w w' w'' u u' : World Journal} {o : ObjectId} {key : String}
  {v : Value}

/-! ## Steps -/

/-- To rewatch leaves the function of a formula to it. -/
theorem Exclusive.of_rewatches (h : f.Exclusive m) (hm : m.Rewatches m') : f.Exclusive m' where
  handlers p c hc := by
    rw [hm.connectionsOf] at hc
    exact h.handlers p c hc
  deeps := Sink.Unwatched.of_rewatches h.deeps hm

/-- To rewatch leaves a formula attached. -/
theorem Kept.of_rewatches (h : f.Kept made m) (hm : m.Rewatches m') : f.Kept made m' where
  exclusive := h.exclusive.of_rewatches hm
  runs o c := by
    rw [hm.connectionsOf]
    exact h.runs o c
  opens o c hc keys hkeys := h.opens o c hc keys ((hm.keysOf o).symm.trans hkeys)

/-- To write an object leaves a formula attached. -/
theorem Kept.setStore (h : f.Kept made m) (o : ObjectId) (s : Store) :
    f.Kept made (m.setStore o s) where
  exclusive.handlers p c hc := by
    rw [Model.connectionsOf_setStore] at hc
    exact h.exclusive.handlers p c hc
  exclusive.deeps := h.exclusive.deeps
  runs p c := by
    rw [Model.connectionsOf_setStore]
    exact h.runs p c
  opens p c hc keys hkeys := by
    rw [Model.keysOf_setStore] at hkeys
    exact h.opens p c hc keys hkeys

/-- A change that leaves a formula bound leaves it attached. -/
theorem Kept.of_leaves (h : f.Kept made m) (hm : f.Leaves m m') : f.Kept made m' where
  exclusive := hm.exclusive h.exclusive
  runs o c := by
    rw [h.runs o c]
    exact and_congr_left fun hruns => (hm.runs o c hruns).symm
  opens o c hc keys hkeys := by
    have hbound := Model.isBound_of_mem_connectionsOf ((h.runs o c).1 hc).1
    exact h.opens o c hc keys ((hm.renews.keysOf o hbound).symm.trans hkeys)

/-- What is made of a proper world is one. -/
theorem Sustains.proper (h : f.Sustains made m₀ w w') (hw : f.Proper made w) :
    f.Proper made w' :=
  ⟨h.kept, h.keeps.mem hw.held, Nat.lt_of_lt_of_le hw.present h.keeps.size⟩

/-- Several things are done one after the other. -/
theorem lasts_steady : Steady (f.Lasts made m₀) where
  refl w h := ⟨h.kept, (World.Keeps.steady _).refl w, id⟩
  trans h h' hw :=
    have hfirst := h hw
    have hsecond := h' (hfirst.proper hw)
    ⟨hsecond.kept, (World.Keeps.steady _).trans hfirst.keeps hsecond.keeps,
      fun hheeded => hsecond.heeded (hfirst.heeded hheeded)⟩

/-- Something is held in a proper world. -/
theorem Proper.hold (h : f.Proper made w) (hs : List Hold) :
    f.Proper made (w.mapModel (·.holdAll hs)) :=
  ⟨h.kept.of_rewatches (Model.rewatches_holds _ _), List.mem_append_right hs h.held, h.present⟩

/-- What was held for something is given up after it. -/
theorem Sustains.release {hs : List Hold}
    (h : f.Sustains made m₀ (w.mapModel (·.holdAll hs)) w') :
    f.Sustains made m₀ w (w'.mapModel (·.releaseAll hs)) :=
  ⟨h.kept.of_rewatches (Model.rewatches_releaseAll _ _), h.keeps.releaseAll, h.heeded⟩

/-- A formula whose scope is held is evaluated when it is called. -/
theorem Proper.alive (h : f.Proper made w) : w.model.isAlive f.scope = true :=
  Model.isAlive_of_held h.held h.present

/-! ## Turns -/

section Turns

variable {listen : Listener Journal} (hlisten : ∀ n u, f.Lasts made m₀ (u.hear n) (listen n u))

include hlisten

/-- Others are told something. -/
theorem lasts_of_others {n : Notice} (hn : f.sink.heard? n = none) (w : World Journal) :
    f.Lasts made m₀ w (listen n w) := by
  have hheard : f.Lasts made m₀ w (w.hear n) := fun h =>
    ⟨h.kept, ⟨Nat.le_refl _, Nat.le_refl _⟩, fun hheeded => hheeded.cons hn⟩
  exact lasts_steady.trans hheard (hlisten n w)

/-- What is done for others. -/
theorem lasts_bypasses : World.Bypasses f.sink listen (f.Lasts made m₀) where
  told _ hn hs w h := (lasts_of_others hlisten hn _ (h.hold hs)).release
  retarget w d v h := by
    have hm := Model.rewatches_retarget d v w.model
    exact ⟨h.kept.of_rewatches hm,
      .of_rewatches hm (Model.watches_holds.retarget (fun _ _ => rfl) v w.model), id⟩
  mend w d o seq key v h := by
    have hm := Model.rewatches_mend d o seq key v w.model
    exact ⟨h.kept.of_rewatches hm,
      .of_rewatches hm (Model.watches_holds.mend (fun _ _ _ _ => rfl) o seq key v w.model), id⟩

/-- The client is told what comes of evaluating the formula. -/
theorem sustains_of_gives {n : Notice} (hgives : f.Gives n w.model) (h : f.Proper made w) :
    f.Sustains made m₀ w (listen n w) ∧ f.Heeded m₀ (listen n w).client := by
  have hreacts := hlisten n w ⟨h.kept, h.held, h.present⟩
  have hheeded := hreacts.heeded (hgives.heeded m₀ w.client)
  exact ⟨⟨hreacts.kept, ⟨hreacts.keeps.size, hreacts.keeps.count⟩, fun _ => hheeded⟩, hheeded⟩

/-- The formula is evaluated again. -/
theorem update_heeded (field : String) (h : f.Proper made w) :
    f.Sustains made m₀ w (f.update listen field w) ∧
      f.Heeded m₀ (f.update listen field w).client := by
  unfold update
  rw [if_pos h.alive]
  cases hv : f.expr.eval w.model (.object f.scope) f.row with
  | ok v =>
    have hgives : f.Gives (f.sink.notice v)
        (w.model.holdAll (.object f.scope :: v.holds)) :=
      ⟨w.model, _, rfl, by rw [hv]⟩
    obtain ⟨hsustains, hheeded⟩ := sustains_of_gives hlisten
      (w := w.mapModel (·.holdAll (.object f.scope :: v.holds))) hgives (h.hold _)
    exact ⟨hsustains.release, hheeded⟩
  | error fault =>
    exact sustains_of_gives hlisten ⟨w.model, [], rfl, by rw [hv]; exact ⟨field, rfl⟩⟩ h

/-- The turn of a handler. -/
theorem handler_heeded {c : Connection} (hallows : f.Allows c.handler)
    (hmade : f.Runs c.handler → c ∈ made o) (h : f.Proper made w)
    (hw' : w' = if w.model.isConnected o ⟨c.key, c.seq⟩ then c.handler.run listen v w else w) :
    f.Sustains made m₀ w w' ∧ (f.Runs c.handler → f.Heeded m₀ w'.client) := by
  by_cases hruns : f.Runs c.handler
  · -- It is connected still, for nobody takes the handlers of the formula off.
    have hconnected := ((h.kept.runs o c).1 (hmade hruns)).1
    obtain ⟨field, hhandler⟩ := id hruns
    have hrun : w' = f.update listen field w := by
      rw [hw', if_pos (Model.isConnected_of_mem hconnected), hhandler]
      rfl
    rw [hrun]
    exact (update_heeded hlisten field h).imp_right fun hheeded _ => hheeded
  · refine ⟨?_, fun h => absurd h hruns⟩
    rw [hw']
    split
    · exact World.handler_avoiding lasts_steady (lasts_bypasses hlisten) (hallows.avoids hruns)
        h.kept.exclusive.deeps h
    · exact lasts_steady.refl w h

/-- The turns of handlers. What they refer to is held before the first of them, and each gives up
its part. -/
theorem handlerTurns_heeded {cs : List Connection} (hw : f.Proper made w)
    (hallows : ∀ c ∈ cs, f.Allows c.handler) (hmade : ∀ c ∈ cs, f.Runs c.handler → c ∈ made o)
    (hkept : f.Kept made u.model)
    (hkeeps : World.Keeps (.object f.scope)
      (w.mapModel (·.holdAll (cs.flatMap (·.handler.holds)))) u)
    (hu' : u' = cs.foldl (World.handlerTurn listen o v) u) :
    f.Kept made u'.model ∧ World.Keeps (.object f.scope) w u' ∧
      (f.Heeded m₀ u.client ∨ (∃ c ∈ cs, f.Runs c.handler) → f.Heeded m₀ u'.client) := by
  subst hu'
  induction cs generalizing u with
  | nil => exact ⟨hkept, hkeeps, fun h => h.resolve_right nofun⟩
  | cons c cs ih =>
    let w₁ := w.mapModel (·.holdAll (cs.flatMap (·.handler.holds)))
    have hheld : w.mapModel (·.holdAll ((c :: cs).flatMap (·.handler.holds))) =
        w₁.mapModel (·.holdAll c.handler.holds) :=
      congrArg (World.mk · w.client) (w.model.holdAll_append _ _)
    rw [hheld] at hkeeps
    have hproper : f.Proper made u :=
      ⟨hkept, hkeeps.mem ((hw.hold _).hold _).held, Nat.lt_of_lt_of_le hw.present hkeeps.size⟩
    obtain ⟨hturn, hheeded⟩ := handler_heeded (v := v) hlisten (hallows c List.mem_cons_self)
      (hmade c List.mem_cons_self) hproper rfl
    -- The first turn gives up what was held for its handler, and the others still have theirs.
    have hrest := ((World.Keeps.steady _).trans hkeeps hturn.keeps).releaseAll
    obtain ⟨hkept', hkeeps', hlater⟩ := ih (u := World.handlerTurn listen o v u c)
      (fun c' hc' => hallows c' (List.mem_cons_of_mem c hc'))
      (fun c' hc' => hmade c' (List.mem_cons_of_mem c hc'))
      (hturn.kept.of_rewatches (Model.rewatches_releaseAll _ _)) hrest
    refine ⟨hkept', hkeeps', fun h => hlater ?_⟩
    rcases h with h | ⟨c', hc', hruns⟩
    · exact .inl (hturn.heeded h)
    · rcases List.mem_cons.1 hc' with rfl | hc'
      · exact .inl (hheeded hruns)
      · exact .inr ⟨c', hc', hruns⟩

/-- The turns of watchers. -/
theorem watcherTurns_last (o : ObjectId) (key : String) (v : Value) (xs : List Watcher)
    (w : World Journal) :
    f.Lasts made m₀ w (xs.foldl (World.watcherTurn listen o key v) w) := by
  refine lasts_steady.foldl xs (fun x _ u hu => ?_) w
  refine World.watcherTurn_within lasts_steady (fun _ => ?_) hu
  exact World.watcher_avoiding lasts_steady (lasts_bypasses hlisten) hu.kept.exclusive.deeps

/-- A dispatch: the formula is heeded after it if it was before, or is attached to the key. -/
theorem notify_heeded (key : String) (v : Value) (h : f.Proper made w) :
    f.Sustains made m₀ w (w.notify listen o key v) ∧
      ((∃ c ∈ made o, c.key = key) → f.Heeded m₀ (w.notify listen o key v).client) := by
  rw [World.notify_eq]
  split
  · have hmem : ∀ c ∈ w.model.handlersOf o key, c ∈ w.model.connectionsOf o :=
      fun c hc => (Model.mem_handlersOf.1 hc).1
    obtain ⟨hkept, hkeeps, hheeded⟩ := handlerTurns_heeded (o := o) (v := v) hlisten h
      (fun c hc => h.kept.exclusive.handlers o c (hmem c hc))
      (fun c hc hruns => (h.kept.runs o c).2 ⟨hmem c hc, hruns⟩)
      (h.hold _).kept ((World.Keeps.steady _).refl _) rfl
    have hturns : f.Sustains made m₀ w ((w.model.handlersOf o key).foldl
        (World.handlerTurn listen o v) (w.mapModel (·.holdAll ((w.model.handlersOf o key).flatMap
          (·.handler.holds))))) :=
      ⟨hkept, hkeeps, fun hbefore => hheeded (.inl hbefore)⟩
    have hwatchers :=
      watcherTurns_last hlisten o key v (w.model.watchersOf o) _ (hturns.proper h)
    refine ⟨lasts_steady.trans (fun _ => hturns) (fun _ => hwatchers) h, fun ⟨c, hc, hkey⟩ => ?_⟩
    -- Its handler of the key is among those that are found when the dispatch begins.
    have hconnected := (h.kept.runs o c).1 hc
    exact hwatchers.heeded (hheeded (.inr ⟨c, Model.mem_handlersOf.2 ⟨hconnected.1, hkey⟩,
      hconnected.2⟩))
  · rename_i hsilent
    refine ⟨lasts_steady.refl w h, fun ⟨c, hc, hkey⟩ => ?_⟩
    have hnotifies := Model.notifies_of_mem ((h.kept.runs o c).1 hc).1 (h.kept.opens o c hc)
    exact absurd (hkey ▸ hnotifies) hsilent

/-- Several dispatches, one after the other. -/
theorem announce_heeded (o : ObjectId) (announcements : List (String × Value))
    (h : f.Proper made w) :
    f.Sustains made m₀ w (Mutation.announce listen o announcements w) ∧
      ((∃ a ∈ announcements, ∃ c ∈ made o, c.key = a.1) →
        f.Heeded m₀ (Mutation.announce listen o announcements w).client) := by
  induction announcements generalizing w with
  | nil => exact ⟨lasts_steady.refl w h, nofun⟩
  | cons a rest ih =>
    obtain ⟨hfirst, hheeded⟩ := notify_heeded hlisten (o := o) a.1 a.2 h
    obtain ⟨hrest, hlater⟩ := ih (hfirst.proper h)
    refine ⟨lasts_steady.trans (fun _ => hfirst) (fun _ => hrest) h, fun ⟨b, hb, hmade⟩ => ?_⟩
    -- Once it is heeded the dispatches that follow leave it so.
    rcases List.mem_cons.1 hb with rfl | hb
    · exact hrest.heeded (hheeded hmade)
    · exact hlater ⟨b, hb, hmade⟩

/-! ## Runs -/

/-- A write. Where the formula is attached it is evaluated again; elsewhere it is not concerned. -/
theorem write_lasts (hattached : f.Attached m₀ made) (o : ObjectId) (op : Operation)
    (w : World Journal) : f.Lasts made m₀ w (op.run listen o (w.begin o op)) := by
  intro h
  rw [Operation.run_eq]
  cases hμ : op.mutation? (w.begin o op).model o with
  | error fault =>
    -- A write that is refused is noted, and tells of nothing.
    have hsilent : f.Ignores m₀ (.wrote o op w.model) := by
      rintro key _ ⟨μ, hμ', _⟩
      cases hμ.symm.trans hμ'
    exact ⟨h.kept, ⟨Nat.le_refl _, Nat.le_refl _⟩, fun hheeded => hheeded.cons hsilent⟩
  | ok μ =>
    dsimp only
    unfold Mutation.run
    rw [Operation.object_of_mutation? hμ]
    let w₁ := (w.begin o op).mapModel (·.setStore o μ.store)
    have hsize : w.model.objects.size = w₁.model.objects.size :=
      (Model.size_modifyObject w.model o _).symm
    have hproper : f.Proper made w₁ :=
      ⟨h.kept.setStore o μ.store, h.held, Nat.lt_of_lt_of_eq h.present hsize⟩
    obtain ⟨hannounced, hheeded⟩ :=
      announce_heeded hlisten o μ.announcements (hproper.hold μ.holds)
    have hrun := hannounced.release
    refine ⟨hrun.kept, ⟨Nat.le_trans (Nat.le_of_eq hsize) hrun.keeps.size, hrun.keeps.count⟩,
      fun hbefore => ?_⟩
    -- A write of a place is noted as such, and the formula is heeded again only by its dispatch.
    by_cases htells : ∃ key, f.Place m₀ o key ∧ op.Tells w.model o key
    · obtain ⟨key, hplace, μ', hμ', a, ha, rfl⟩ := htells
      obtain rfl := Except.ok.inj (hμ.symm.trans hμ')
      exact hheeded ⟨a, ha, hattached.covers o a.1 hplace⟩
    · refine hrun.heeded (hbefore.cons fun key hplace hkey => htells ⟨key, hplace, hkey⟩)

end Turns

/-- A run. -/
theorem Proceeds.lasts (hattached : f.Attached m₀ made) (h : f.Proceeds w w') :
    f.Lasts made m₀ w w' := by
  induction h with
  | done w => exact lasts_steady.refl w
  | write _ _ ih ihrest => exact lasts_steady.trans (write_lasts ih hattached _ _ _) ihrest
  | change leaves _ ih =>
    refine lasts_steady.trans (fun hw => ?_) ih
    exact ⟨hw.kept.of_leaves leaves, ⟨leaves.renews.size, leaves.holds⟩, id⟩

/-! ## The binding -/

/-- What a model is when a formula can be bound and attached: its scope has a binding and is held,
its row is alive, its fields belong to keys that are told of, and nobody else tells its function. -/
structure Attachable (f : Formula) (m : Model) : Prop where
  /-- All that is referred to exists. -/
  whole : m.Whole
  /-- The scope of the formula has a binding. -/
  bound : m.isBound f.scope = true
  /-- It is held. -/
  held : .object f.scope ∈ m.holds
  /-- The row is alive. -/
  row : ∀ q, f.row.object? = some q → q ∈ m.living
  /-- Changes of the fields are told of. -/
  opens : ∀ o key, f.Place m o key → m.Opens o key
  /-- Nobody else tells the function. -/
  exclusive : f.Exclusive m
  /-- Nothing evaluates the formula yet. -/
  unbound : ∀ o, ∀ c ∈ m.connectionsOf o, ¬ f.Runs c.handler

/-- When the fields of a formula have been connected, it is attached. -/
theorem Attachable.kept (h : f.Attachable m) (hattached : f.Attached m made)
    (hconnects : Model.Connects made m m') : f.Kept made m' where
  exclusive.handlers o c hc := by
    rw [hconnects.connectionsOf] at hc
    rcases List.mem_append.1 hc with hc | hc
    · exact h.exclusive.handlers o c hc
    · obtain ⟨_, hhandler⟩ := hattached.runs o c hc
      rw [hhandler]
      exact fun _ => rfl
  exclusive.deeps d deep hd := by
    refine h.exclusive.deeps d deep ?_
    unfold Model.deep? at *
    rwa [hconnects.deeps] at hd
  runs o c := by
    rw [hconnects.connectionsOf, List.mem_append]
    refine ⟨fun hc => ⟨.inr hc, hattached.runs o c hc⟩, fun ⟨hc, hruns⟩ => ?_⟩
    exact hc.resolve_left fun hc => h.unbound o c hc hruns
  opens o c hc keys hkeys := by
    rw [hconnects.keysOf] at hkeys
    exact h.opens o c.key (hattached.placed o c hc) keys hkeys

variable {listen : Listener Journal} {b : BoundFormula}

/-- To bind a formula attaches it where its fields belong, and tells its function its value. -/
theorem heeded_of_bindFormula (hl : m.Linked) (h : f.Attachable m)
    (hlisten : ∀ n u, f.Proceeds (u.hear n) (listen n u))
    (hbinds : Scope.bindFormula listen f.scope f.expr f.row f.sink ⟨m, []⟩ = (.ok b, w)) :
    ∃ made, f.Attached m made ∧ f.Proper made w ∧ f.Heeded m w.client ∧ m.Renews w.model := by
  obtain ⟨hv, m₁, hfields, rfl⟩ := Scope.bindFormula_of_ok hbinds
  obtain ⟨made, hattached, hconnects, hholds, hencloses⟩ :=
    attached_of_bindFields hl h.whole h.bound h.row hfields
  have hproper : f.Proper made ⟨m₁, []⟩ := by
    refine ⟨h.kept hattached hconnects, hholds ▸ h.held, ?_⟩
    exact Nat.lt_of_lt_of_eq (Model.lt_size_of_isBound h.bound) hconnects.size.symm
  -- What its function is told is the value after the fields were connected, too.
  have hvalue : f.expr.eval m₁ (.object f.scope) f.row = .ok b.value :=
    (Expr.eval_congr hconnects.store hencloses _ _ _).trans hv
  let hs : List Hold := .object f.scope :: f.row.holds ++ b.value.holds
  have hgives : f.Gives (f.sink.notice b.value) (m₁.holdAll hs) := ⟨m₁, hs, rfl, by rw [hvalue]⟩
  obtain ⟨hsustains, hheeded⟩ := sustains_of_gives
    (fun n u => (hlisten n u).lasts hattached) hgives (hproper.hold hs)
  have hrenews : m.Renews m₁ := (Model.renews_alters.bindFields _ _ _).of_run hfields
  exact ⟨made, hattached, hsustains.release.proper hproper, hheeded,
    Model.Renews.steady.trans hrenews <|
      World.renews_attends.loose.holding World.renews_steady
        (fun u => (hlisten _ u).renews) hs ⟨m₁, []⟩⟩

/-- A formula that is bound stays attached to where its fields belonged then and nowhere else,
whatever is written afterwards. A write that tells of such a place calls it, and it is then
evaluated as its scope is enclosed at that moment; no other write calls it. So what its function was
told last is what came of evaluating it at a moment after which nothing was written where it is
attached. -/
theorem stays_attached {history : History} (hstart : Moves Request ⟨{}, []⟩ ⟨m, history⟩)
    (h : f.Attachable m) (hlisten : ∀ n u, f.Proceeds (u.hear n) (listen n u)) {src : String}
    (hbinds : Expr.ofSource src = .ok f.expr ∧
        Scope.bindExpr listen f.scope src f.row f.sink ⟨m, []⟩ = (.ok b, w) ∨
      Expr.ofTemplate src = .ok f.expr ∧
        Scope.bindTemplate listen f.scope src f.row f.sink ⟨m, []⟩ = (.ok b, w)) :
    ∃ made, f.Attached m made ∧ ∀ w', f.Proceeds w w' → f.Kept made w'.model ∧
      (∀ (listen' : Listener Journal) o op μ,
        (∀ n (u : World Journal), u.model.Renews (listen' n u).model) →
        op.mutation? w'.model o = .ok μ →
        ∃ calls, op.Calls listen' o w' calls ∧ f.Answers made listen' o op w' calls) ∧
      f.Heeded m w'.client := by
  have hbound : Scope.bindFormula listen f.scope f.expr f.row f.sink ⟨m, []⟩ = (.ok b, w) := by
    rcases hbinds with ⟨hsrc, hbinds⟩ | ⟨hsrc, hbinds⟩
    · rwa [Scope.bindExpr_eq _ _ _ hsrc] at hbinds
    · rwa [Scope.bindTemplate_eq _ _ _ hsrc] at hbinds
  obtain ⟨made, hattached, hproper, hheeded, hrenews⟩ :=
    heeded_of_bindFormula (linked_of_moves hstart) h hlisten hbound
  refine ⟨made, hattached, fun w' hrun => ?_⟩
  have hsustains := hrun.lasts hattached hproper
  refine ⟨hsustains.kept, fun listen' o op μ hlisten' hμ => ?_, hsustains.heeded hheeded⟩
  have hn := (Model.Renews.steady.trans hrenews hrun.renews).numbered (numbered_of_moves hstart)
  obtain ⟨calls, hcalls⟩ := Operation.exists_calls hn hlisten' hμ
  exact ⟨calls, hcalls, hattached.answers hlisten' hcalls fun c hc =>
    ⟨((hsustains.kept.runs o c).1 hc).1, hsustains.kept.opens o c hc⟩⟩

end Formula

/-- Two maps with a member `x`, the first of which is the member `parent` of a third. -/
def Model.lodged : Model :=
  let m := (Model.add {} (.map (Dict.ofList [("x", .bool true)]))).2
  let m := (m.add (.map (Dict.ofList [("x", .bool false)]))).2
  let m := (m.add (.map (Dict.ofList [(parentKey, .object 0)]))).2
  { m.ensureBinding 2 with holds := [.object 0, .object 1, .object 2] }

/-- A run makes it. -/
theorem Model.lodged_moves : Moves Request ⟨{}, []⟩ ⟨Model.lodged, []⟩ :=
  .next noting_moves (.add (s := .map (Dict.ofList [("x", .bool true)]))) <|
  .next noting_moves (.add (s := .map (Dict.ofList [("x", .bool false)]))) <|
  .next noting_moves (.add (s := .map (Dict.ofList [(parentKey, .object 0)]))) <|
  .next noting_moves (.proxy (o := 2)) <|
  .next noting_moves .hold <|
  .done _

namespace Formula

/-- The formula that reads `x` one scope above the third map. -/
def lodger : Formula := ⟨.reference ⟨2, "x"⟩, 2, .null, ⟨1, none⟩⟩

/-- The source of the formula. -/
theorem ofSource_lodger : Expr.ofSource "$$x" = .ok lodger.expr := by
  with_unfolding_all rfl

/-- The formula can be bound. -/
theorem attachable_lodger : lodger.Attachable Model.lodged := by
  have hconnections (o : ObjectId) : Model.lodged.connectionsOf o = [] := by
    match o with
    | 0 | 1 | 2 | _ + 3 => rfl
  have hkeys (o : ObjectId) : Model.lodged.keysOf o = none := by
    match o with
    | 0 | 1 | 2 | _ + 3 => rfl
  have hnone (o : ObjectId) (c : Connection) (hc : c ∈ Model.lodged.connectionsOf o) : False := by
    rw [hconnections] at hc
    cases hc
  exact {
    whole := fun o q hq => by
      match o with
      | 0 | 1 => cases List.mem_singleton.1 hq
      | 2 =>
        obtain rfl := Value.object.inj (List.mem_singleton.1 hq)
        decide
      | _ + 3 => cases hq
    bound := rfl
    held := by decide
    row := nofun
    opens := fun o key _ => Model.opens_of_none (hkeys o) key
    exclusive := ⟨fun o c hc => (hnone o c hc).elim, nofun⟩
    unbound := fun o c hc => (hnone o c hc).elim }

/-- The formula when it is bound. -/
def lodged : World Journal :=
  (Scope.bindFormula World.hear 2 lodger.expr .null ⟨1, none⟩ ⟨Model.lodged, []⟩).2

/-- It is bound then, and its function was told the `x` of the first map. -/
theorem bindExpr_lodger : Scope.bindExpr World.hear 2 "$$x" .null ⟨1, none⟩ ⟨Model.lodged, []⟩ =
    (.ok ⟨some 1, .bool true, [⟨1, "x"⟩]⟩, lodged) := by
  rw [Scope.bindExpr_eq _ _ _ ofSource_lodger]
  rfl

/-- A write that is noted. -/
def noted (o : ObjectId) (key : String) (v : Value) (w : World Journal) : World Journal :=
  (Operation.set key v).run World.hear o (w.begin o (.set key v))

/-- That is a run. -/
theorem proceeds_noted (f : Formula) (o : ObjectId) (key : String) (v : Value)
    (w : World Journal) : f.Proceeds w (noted o key v w) :=
  .write (fun _ _ => .done _) (.done _)

/-- The second map becomes the `parent` of the third. -/
def relodged : World Journal := noted 2 parentKey (.object 1) lodged

/-- When the `x` of the first map is written after that, the formula is called. -/
theorem stays_attached_relodged :
    (Moves Request ⟨{}, []⟩ ⟨Model.lodged, []⟩ ∧ lodger.Attachable Model.lodged ∧
      (∀ n u, lodger.Proceeds (u.hear n) (World.hear n u)) ∧
      Expr.ofSource "$$x" = .ok lodger.expr ∧
      Scope.bindExpr World.hear 2 "$$x" .null ⟨1, none⟩ ⟨Model.lodged, []⟩ =
        (.ok ⟨some 1, .bool true, [⟨1, "x"⟩]⟩, lodged) ∧
      lodger.Proceeds lodged relodged ∧
      (∀ n (u : World Journal), u.model.Renews (World.hear n u).model)) ∧
    ∃ made, lodger.Attached Model.lodged made ∧ lodger.Kept made relodged.model ∧
      (∃ calls, (Operation.set "x" .null).Calls World.hear 0 relodged calls ∧
        lodger.Answers made World.hear 0 (.set "x" .null) relodged calls) ∧
      lodger.Heeded Model.lodged relodged.client := by
  have hlisten (n : Notice) (u : World Journal) :
      lodger.Proceeds (u.hear n) (World.hear n u) := .done _
  have hrun : lodger.Proceeds lodged relodged := proceeds_noted lodger 2 parentKey _ lodged
  have hrenews (n : Notice) (u : World Journal) : u.model.Renews (World.hear n u).model :=
    Model.Renews.steady.refl u.model
  obtain ⟨made, hattached, hruns⟩ := stays_attached Model.lodged_moves attachable_lodger hlisten
    (.inl ⟨ofSource_lodger, bindExpr_lodger⟩)
  obtain ⟨hkept, hcalls, hheeded⟩ := hruns relodged hrun
  exact ⟨⟨Model.lodged_moves, attachable_lodger, hlisten, ofSource_lodger, bindExpr_lodger, hrun,
    hrenews⟩, made, hattached, hkept, hcalls World.hear 0 (.set "x" .null) _ hrenews rfl,
    hheeded⟩

/-- The value that the function of a formula was told last. -/
def lastTold (f : Formula) (w : World Journal) : Option Value :=
  w.client.findSome? fun
    | .told n _ => f.sink.heard? n
    | .wrote .. => none

/-- When `parent` is replaced, the value of the formula is another, but its function is not told.
Neither is it when the `x` of the new `parent` is written; it is told that value when the `x` of the
old `parent` is written. -/
theorem not_told_relodged :
    Scope.bindExpr World.hear 2 "$$x" .null ⟨1, none⟩ ⟨Model.lodged, []⟩ =
      (.ok ⟨some 1, .bool true, [⟨1, "x"⟩]⟩, lodged) ∧
    Model.lodged.linkOf 2 = none ∧ Model.lodged.get 2 parentKey = .object 0 ∧
    relodged.model.get 2 parentKey = .object 1 ∧
    lodger.expr.eval relodged.model (.object 2) .null = .ok (.bool false) ∧
    lodger.lastTold relodged = some (.bool true) ∧
    lodger.expr.eval (noted 1 "x" .null relodged).model (.object 2) .null = .ok .null ∧
    lodger.lastTold (noted 1 "x" .null relodged) = some (.bool true) ∧
    lodger.lastTold (noted 0 "x" (.bool true) (noted 1 "x" .null relodged)) = some .null :=
  ⟨bindExpr_lodger, rfl, rfl, rfl, rfl, rfl, rfl, rfl, rfl⟩

end Formula

end LiveScope
