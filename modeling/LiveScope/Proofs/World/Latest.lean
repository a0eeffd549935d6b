import LiveScope.Proofs.World.Chronicle
import LiveScope.Proofs.World.Dispatching

/-!
# The last call of a handler

A write that is made while another one is told of is told of at once, so that the handlers whose
turn is still to come are called for the later write first, and then for the earlier one with the
value that it had written. `Unfolds.called_latest` says that nothing else makes a handler's last
call stale: every handler that was connected before the last write of its property has been called
since, and what it was called with last is the value that the property has now, or the property was
written again in the very dispatch that called it, before its turn. `Chronicle.not_called_latest` is
a run in which that happens.

What carries the induction over a run is `Chronicle.Follows`: a handler that awaits a call at the
end awaited it at the beginning, or is not connected any more. In a dispatch of the property the
handlers found at its beginning await their calls, and each loses this in its turn.
-/

namespace LiveScope

namespace Chronicle

variable (s : Sink) (r : ObjectId) (k : String)

/-- What holds of every world of a run, in the middle of dispatches too. -/
structure Ready (w : World Chronicle) : Prop where
  /-- The numbers are in order. -/
  numbered : w.model.Numbered
  /-- The object of the property exists. -/
  present : r < w.model.objects.size
  /-- It is a map. -/
  map : (w.model.store r).isList = false
  /-- The function is kept for handlers of the property. -/
  reserved : w.model.Reserved s r k
  /-- Every call of the function was made by the dispatch of a write, with the value written. -/
  founded : Founded s r k w.client.deeds
  /-- The value that was written last is stored. -/
  stored : ∀ v, w.client.deeds.findSome? (Deed.put? r k) = some v → w.model.get r k = v

/-- Whether a write of a property, with this value, is the last thing that was done. -/
def Begun (v : Value) (w : World Chronicle) : Prop :=
  ∃ op m base, w.client.deeds = .wrote r op m :: base ∧ w.client.telling = base.length ∧
    op.put? k = some v

/-- Whether a handler that was connected to an object is not connected any more. -/
def Gone (c : Connection) (m : Model) : Prop := c ∉ m.connectionsOf r ∧ c.seq ≤ m.lastIdOf r

/-- Whether a handler that awaits a call is not connected any more. -/
def Settled (c : Connection) (w : World Chronicle) : Prop :=
  Awaits s r k c w.client.deeds → Gone r c w.model

/-- What is made of a world by something that is done as a whole. -/
structure Follows (w w' : World Chronicle) : Prop where
  /-- What holds of every world of a run holds. -/
  ready : Ready s r k w'
  /-- The tables are renewed. -/
  renews : w.model.Renews w'.model
  /-- The same write is being told of. -/
  telling : w'.client.telling = w.client.telling
  /-- The chronicle goes on. -/
  deeds : w.client.deeds <:+ w'.client.deeds
  /-- A connection that waits to be called was waiting before, or is gone. -/
  awaits : ∀ c, Awaits s r k c w'.client.deeds →
    Awaits s r k c w.client.deeds ∨ Gone r c w'.model

/-- What everything that is done as a whole stays within. -/
def Goes (w w' : World Chronicle) : Prop := Ready s r k w → Follows s r k w w'

variable {s r k} {c : Connection} {w w' w'' : World Chronicle}

/-- What holds of a world does not depend on which write is told of. -/
theorem Ready.resume (h : Ready s r k w) (telling : Nat) : Ready s r k (w.resume telling) :=
  { h with }

/-- A handler that is not connected any more is never connected again. -/
theorem Gone.renews {m m' : Model} (h : Gone r c m) (hm : m.Renews m') : Gone r c m' := by
  refine ⟨fun hc => h.1 ?_, Nat.le_trans h.2 (hm.lastIdOf r)⟩
  exact Recipient.Registered.of_renews (r := .handler c) hc hm h.2

/-- Nothing is done. -/
theorem Follows.refl (h : Ready s r k w) : Follows s r k w w :=
  ⟨h, Model.Renews.steady.refl _, rfl, List.suffix_rfl, fun _ => .inl⟩

/-- One thing is done after another. -/
theorem Follows.trans (h : Follows s r k w w') (h' : Follows s r k w' w'') :
    Follows s r k w w'' where
  ready := h'.ready
  renews := Model.Renews.steady.trans h.renews h'.renews
  telling := h'.telling.trans h.telling
  deeds := h.deeds.trans h'.deeds
  awaits c hc := by
    rcases h'.awaits c hc with hc | hgone
    · exact (h.awaits c hc).imp_right fun hgone => hgone.renews h'.renews
    · exact .inr hgone

/-- A handler that awaits no call goes on to await none. -/
theorem Settled.follows (hc : Settled s r k c w) (h : Follows s r k w w') :
    Settled s r k c w' := by
  intro hawaits
  rcases h.awaits c hawaits with hawaits | hgone
  · exact (hc hawaits).renews h.renews
  · exact hgone

/-- Several things are done one after the other. -/
theorem goes_steady : Steady (Goes s r k) where
  refl _ h := .refl h
  trans h h' hready :=
    have hfirst := h hready
    hfirst.trans (h' hfirst.ready)

/-! ## Changes of the model -/

/-- A change of the model that leaves the property, and its function to it. -/
theorem goes_of_model {m : Model} (renews : w.model.Renews m)
    (hmap : r < w.model.objects.size → (m.store r).isList = (w.model.store r).isList)
    (hget : r < w.model.objects.size → (w.model.store r).isList = false →
      m.get r k = w.model.get r k)
    (reserved : w.model.Reserved s r k → m.Reserved s r k) :
    Goes s r k w { w with model := m } := by
  intro h
  have hready : Ready s r k { w with model := m } := {
    numbered := renews.numbered h.numbered
    present := Nat.lt_of_lt_of_le h.present renews.size
    map := (hmap h.present).trans h.map
    reserved := reserved h.reserved
    founded := h.founded
    stored := fun v hv => (hget h.present h.map).trans (h.stored v hv) }
  exact ⟨hready, renews, rfl, List.suffix_rfl, fun _ => .inl⟩

/-- To rewatch. -/
theorem goes_of_rewatches {m : Model} (renews : w.model.Renews m) (h : w.model.Rewatches m) :
    Goes s r k w { w with model := m } := by
  refine goes_of_model renews (fun _ => by rw [h.store]) (fun _ _ => ?_)
    fun hreserved => hreserved.of_rewatches h
  unfold Model.get
  rw [h.store]

/-- What the library does to a model while it tells of a change. -/
theorem goes_attends : World.Attends (Goes s r k) where
  loose w holds :=
    goes_of_rewatches (World.renews_attends.loose w holds) (Model.rewatches_holds w.model holds)
  retarget w d v :=
    goes_of_rewatches (World.renews_attends.retarget w d v) (Model.rewatches_retarget d v w.model)
  mend w d o seq key v :=
    goes_of_rewatches (World.renews_attends.mend w d o seq key v)
      (Model.rewatches_mend d o seq key v w.model)

/-- When the dispatch of a write of the property begins, the property has the value. -/
theorem ready_written {op : Operation} {μ : Mutation} {v : Value} (hput : op.put? k = some v)
    (hμ : op.mutation? w.model r = .ok μ) (hget : μ.store.get k = v) (h : Ready s r k w)
    (hs : List Hold) : Ready s r k
      (((w.beginWrite r op).mapModel (·.setStore r μ.store)).mapModel (·.holdAll hs)) := by
  have hrenews : w.model.Renews ((w.model.setStore r μ.store).holdAll hs) :=
    Model.Renews.steady.trans (.setStore w.model r μ.store) (Model.renews_holds _ _)
  have hstore : ((w.model.setStore r μ.store).holdAll hs).store r = μ.store :=
    Model.store_setStore_self h.present
  exact {
    numbered := hrenews.numbered h.numbered
    present := Nat.lt_of_lt_of_le h.present hrenews.size
    map := (congrArg Store.isList hstore).trans ((Operation.isList_of_mutation? hμ).trans h.map)
    reserved := (h.reserved.setStore r μ.store).of_rewatches (Model.rewatches_holds _ _)
    founded := h.founded.cons_of_none rfl
    stored := by
      intro v' hv'
      have hlast : (Deed.wrote r op w.model :: w.client.deeds).findSome? (Deed.put? r k) =
          some v' := hv'
      rw [List.findSome?_cons, Deed.put?_wrote, hput] at hlast
      exact (congrArg (·.get k) hstore).trans (hget.trans (Option.some.inj hlast)) }

/-- A write of something else is noted. -/
theorem ready_beginWrite {o : ObjectId} {op : Operation}
    (hother : (Deed.wrote o op w.model).put? r k = none) (h : Ready s r k w) :
    Ready s r k (w.beginWrite o op) where
  numbered := h.numbered
  present := h.present
  map := h.map
  reserved := h.reserved
  founded := h.founded.cons_of_none rfl
  stored v hv := by
    have hcons : (Deed.wrote o op w.model :: w.client.deeds).findSome? (Deed.put? r k) =
        some v := hv
    rw [List.findSome?_cons, hother] at hcons
    exact h.stored v hcons

/-! ## Turns -/

section Turns

variable {listen : Listener Chronicle}
  (hlisten : ∀ n u, Goes s r k (u.enter n) (listen n u))

include hlisten

/-- Others are told something. -/
theorem tell_others {n : Notice} (hn : s.heard? n = none) (w : World Chronicle) :
    Goes s r k w (listen n w) := by
  refine goes_steady.trans (fun h => ?_) (hlisten n w)
  have hready : Ready s r k (w.enter n) :=
    { h with founded := h.founded.cons_of_none (d := .told n _) hn }
  exact ⟨hready, Model.Renews.steady.refl _, rfl, List.suffix_cons _ _, fun _ hc => .inl hc.2⟩

/-- What is done for others. -/
theorem bypasses : World.Bypasses s listen (Goes s r k) :=
  goes_attends.bypasses goes_steady fun _ hn => tell_others hlisten hn

/-- The turns of watchers. -/
theorem watcherTurns_go (o : ObjectId) (key : String) (v : Value) (xs : List Watcher)
    (w : World Chronicle) :
    Goes s r k w (xs.foldl (World.watcherTurn listen o key v) w) := by
  refine goes_steady.foldl xs (fun x _ u hu => ?_) w
  refine World.watcherTurn_within goes_steady (fun _ => ?_) hu
  exact World.watcher_avoiding goes_steady (bypasses hlisten) hu.reserved.unwatched

/-- A dispatch of another key, or of another object. -/
theorem notify_others {o : ObjectId} {key : String} (hother : ¬ (o = r ∧ key = k)) (v : Value)
    (w : World Chronicle) : Goes s r k w (w.notify listen o key v) := by
  intro h
  rw [World.notify_eq]
  split
  · have havoids : ∀ c ∈ w.model.handlersOf o key, s.Avoids c.handler := by
      intro c hc
      obtain ⟨hmem, hkey⟩ := Model.mem_handlersOf.1 hc
      rcases h.reserved.handlers o c hmem with ⟨ho, hk, _⟩ | hc
      · exact absurd ⟨ho, hkey.symm.trans hk⟩ hother
      · exact hc
    have hhandler : ∀ c ∈ w.model.handlersOf o key, ∀ u,
        Goes s r k u (World.handlerTurn listen o v u c) := by
      intro c hc u hu
      refine World.handlerTurn_within goes_steady goes_attends.loose (fun _ => ?_) hu
      exact World.handler_avoiding goes_steady (bypasses hlisten) (havoids c hc)
        hu.reserved.unwatched
    exact goes_steady.trans (goes_steady.trans (goes_attends.loose w _)
      (goes_steady.foldl _ hhandler _)) (watcherTurns_go hlisten o key v _ _) h
  · exact .refl h

variable {v : Value} {u : World Chronicle}

/-- The function of the property is told the value of a write; no handler of it awaits a call any
more. -/
theorem tell_own (hbegun : Begun r k v w) (h : Follows s r k w u) :
    Follows s r k u (listen (s.notice v) u) ∧ ∀ c, Settled s r k c (listen (s.notice v) u) := by
  have hheard : s.heard? (s.notice v) = some v := by rw [Sink.heard?_notice, if_pos rfl]
  have hready : Ready s r k (u.enter (s.notice v)) := by
    refine { h.ready with founded := h.ready.founded.cons fun v' hv' => ?_ }
    obtain rfl : v = v' := Option.some.inj (hheard.symm.trans hv')
    -- What was done since the dispatch began stands between its write and the call.
    obtain ⟨op, m, base, hdeeds, htelling, hput⟩ := hbegun
    obtain ⟨between, hbetween⟩ := h.deeds
    rw [hdeeds] at hbetween
    refine ⟨between, s.notice v, op, m, base, ?_, hheard, hput⟩
    rw [h.telling, htelling, hbetween]
  have hreacts := hlisten (s.notice v) u hready
  have hsettled : ∀ c, Settled s r k c (listen (s.notice v) u) := by
    intro c hc
    rcases hreacts.awaits c hc with hawaits | hgone
    · have hnone : s.heard? (s.notice v) = none := hawaits.1
      rw [hheard] at hnone
      cases hnone
    · exact hgone
  exact ⟨⟨hreacts.ready, hreacts.renews, hreacts.telling,
    (List.suffix_cons _ _).trans hreacts.deeds, fun c hc => .inr (hsettled c hc)⟩, hsettled⟩

/-- The turn of a handler that was connected when the dispatch of the property began. -/
theorem handlerTurn_follows (hn : w.model.Numbered) (hbegun : Begun r k v w)
    (hc : c ∈ w.model.connectionsOf r) (hhandler : c.handler = .report s ∨ s.Avoids c.handler)
    (h : Follows s r k w u) :
    Follows s r k u (World.handlerTurn listen r v u c) ∧
      (c.handler = .report s → Settled s r k c (World.handlerTurn listen r v u c)) := by
  have hreleased (u' : World Chronicle) (h' : Follows s r k u u') :
      Follows s r k u' (u'.mapModel (·.releaseAll c.handler.holds)) :=
    goes_attends.loose.releaseAll goes_steady _ _ h'.ready
  unfold World.handlerTurn
  by_cases hconnected : u.model.isConnected r ⟨c.key, c.seq⟩ = true
  · rw [if_pos hconnected]
    rcases hhandler with hown | hother
    · rw [hown]
      rw [hown] at hreleased
      obtain ⟨htold, hsettled⟩ := tell_own hlisten hbegun h
      have hrest := hreleased _ htold
      exact ⟨htold.trans hrest, fun _ => (hsettled c).follows hrest⟩
    · have hrun := World.handler_avoiding (v := v) goes_steady (bypasses hlisten) hother
        h.ready.reserved.unwatched h.ready
      refine ⟨hrun.trans (hreleased _ hrun), fun hown => ?_⟩
      rw [hown] at hother
      exact absurd rfl hother
  · -- It was taken off, and no other handler has its number.
    rw [if_neg hconnected]
    have hrest := hreleased u (.refl h.ready)
    have hgone : Gone r c u.model := by
      refine ⟨fun hmem => hconnected (Model.isConnected_of_mem hmem), ?_⟩
      have hseq := Recipient.Registered.seq_le (r := .handler c) hc hn
      exact Nat.le_trans hseq (h.renews.lastIdOf r)
    exact ⟨hrest, fun _ => Settled.follows (fun _ => hgone) hrest⟩

/-- The turns of the handlers that were connected when the dispatch of the property began. -/
theorem handlerTurns_follow (hn : w.model.Numbered) (hbegun : Begun r k v w)
    {cs : List Connection} (hcs : ∀ c ∈ cs, c ∈ w.model.connectionsOf r)
    (hhandlers : ∀ c ∈ cs, c.handler = .report s ∨ s.Avoids c.handler)
    (h : Follows s r k w u) :
    Follows s r k u (cs.foldl (World.handlerTurn listen r v) u) ∧
      ∀ c ∈ cs, c.handler = .report s →
        Settled s r k c (cs.foldl (World.handlerTurn listen r v) u) := by
  induction cs generalizing u with
  | nil => exact ⟨.refl h.ready, nofun⟩
  | cons c cs ih =>
    obtain ⟨hturn, hsettled⟩ := handlerTurn_follows hlisten hn hbegun (hcs c List.mem_cons_self)
      (hhandlers c List.mem_cons_self) h
    obtain ⟨hrest, hsettles⟩ := ih (fun c' hc' => hcs c' (List.mem_cons_of_mem c hc'))
      (fun c' hc' => hhandlers c' (List.mem_cons_of_mem c hc')) (h.trans hturn)
    refine ⟨hturn.trans hrest, fun c' hc' hown => ?_⟩
    rcases List.mem_cons.1 hc' with rfl | hc'
    · exact (hsettled hown).follows hrest
    · exact hsettles c' hc' hown

/-- The dispatch of the property: of the handlers that it finds none awaits a call afterwards. -/
theorem notify_follows (hbegun : Begun r k v w) (h : Ready s r k w) :
    Follows s r k w (w.notify listen r k v) ∧
      ∀ c ∈ w.model.handlersOf r k, c.handler = .report s →
        Settled s r k c (w.notify listen r k v) := by
  rw [World.notify_eq]
  split
  · have hmem : ∀ c ∈ w.model.handlersOf r k, c ∈ w.model.connectionsOf r :=
      fun c hc => (Model.mem_handlersOf.1 hc).1
    have hhandlers : ∀ c ∈ w.model.handlersOf r k,
        c.handler = .report s ∨ s.Avoids c.handler := by
      intro c hc
      exact (h.reserved.handlers r c (hmem c hc)).imp_left fun hown => hown.2.2
    have hheld := goes_attends.loose w
      ((w.model.handlersOf r k).flatMap (·.handler.holds) ++ w.model.holds) h
    obtain ⟨hturns, hsettled⟩ := handlerTurns_follow (v := v) hlisten h.numbered hbegun hmem
      hhandlers hheld
    have hwatchers :=
      watcherTurns_go hlisten r k v (w.model.watchersOf r) _ hturns.ready
    exact ⟨(hheld.trans hturns).trans hwatchers,
      fun c hc hown => (hsettled c hc hown).follows hwatchers⟩
  · rename_i hsilent
    refine ⟨.refl h, fun c hc => ?_⟩
    exact absurd (h.reserved.notifies (Model.mem_handlersOf.1 hc).1) hsilent

/-! ## Writes -/

/-- A write of the property. -/
theorem write_own {op : Operation} (hput : op.put? k = some v) (h : Ready s r k w) :
    Follows s r k w (w.write listen r op) := by
  obtain ⟨μ, hμ⟩ := Operation.exists_mutation? (m := w.model) h.map hput
  obtain ⟨key, v', hannounced, hputs, hget⟩ := Operation.put?_of_map h.map hμ
  obtain ⟨rfl, rfl⟩ : key = k ∧ v' = v := by
    rw [hputs] at hput
    split at hput
    · exact ⟨‹_›, Option.some.inj hput⟩
    · cases hput
  have hobject := Operation.object_of_mutation? hμ
  let u : World Chronicle :=
    ((w.beginWrite r op).mapModel (·.setStore r μ.store)).mapModel (·.holdAll μ.holds)
  have hrenews : w.model.Renews u.model :=
    Model.Renews.steady.trans (.setStore w.model r μ.store) (Model.renews_holds _ _)
  have hready : Ready s r key u :=
    ready_written hput hμ (by rw [hget, if_pos rfl]) h μ.holds
  have hbegun : Begun r key v' u := ⟨op, w.model, w.client.deeds, rfl, rfl, hput⟩
  obtain ⟨htold, hsettled⟩ := notify_follows hlisten hbegun hready
  have hreleased := goes_attends.loose.releaseAll goes_steady μ.holds _ htold.ready
  have hrest := htold.trans hreleased
  have hrun : op.run listen r (w.beginWrite r op) =
      (u.notify listen r key v').mapModel (·.releaseAll μ.holds) := by
    rw [Operation.run_eq, show (w.beginWrite r op).model = w.model from rfl, hμ]
    dsimp only
    rw [μ.run_of_single listen hannounced, hobject]
  unfold World.write
  rw [hrun]
  refine ⟨hrest.ready.resume _, Model.Renews.steady.trans hrenews hrest.renews, rfl,
    (List.suffix_cons _ _).trans hrest.deeds, fun c hc => ?_⟩
  rcases hrest.awaits c hc with hawaits | hgone
  · -- It was found by this write, so that it had its turn.
    have hfound : c ∈ w.model.handlersOf r key ∧ c.handler = .report s := by
      have hdeeds : Awaits s r key c (.wrote r op w.model :: w.client.deeds) := hawaits
      rw [Awaits, Deed.put?_wrote, hput] at hdeeds
      exact hdeeds
    have hmem : c ∈ u.model.handlersOf r key := by
      rw [Model.handlersOf_eq] at hfound ⊢
      rw [show u.model.connectionsOf r = w.model.connectionsOf r from
        Model.connectionsOf_setStore w.model r μ.store r]
      exact hfound.1
    have hgone := (hsettled c hmem hfound.2).follows hreleased
    exact .inr (hgone hc)
  · exact .inr hgone

/-- A write of something else leaves the property, and tells of other keys. -/
theorem goes_of_mutation? {o : ObjectId} {op : Operation} {μ : Mutation}
    (hμ : op.mutation? w.model o = .ok μ)
    (hothers : ∀ a ∈ μ.announcements, o = r → a.1 ≠ k) : Goes s r k w (μ.run listen w) := by
  have hobject := Operation.object_of_mutation? hμ
  have hwritten : Goes s r k w (w.mapModel (·.setStore o μ.store)) :=
    goes_of_model (.setStore w.model o μ.store) (fun _ => Operation.isList_setStore hμ r)
      (fun _ hmap => Operation.get_setStore_of_others hmap hμ hothers)
      (fun hreserved => hreserved.setStore o μ.store)
  unfold Mutation.run
  rw [hobject]
  refine goes_steady.trans hwritten (goes_attends.loose.holding goes_steady (fun u => ?_) _ _)
  refine goes_steady.foldl _ (fun a ha u => ?_) u
  exact notify_others hlisten (fun hsame => hothers a ha hsame.1 hsame.2) a.2 u

/-- A write of something else. -/
theorem write_other {o : ObjectId} {op : Operation}
    (hother : (Deed.wrote o op w.model).put? r k = none) (h : Ready s r k w) :
    Follows s r k w (w.write listen o op) := by
  have hbegun := ready_beginWrite hother h
  have hrun : Follows s r k (w.beginWrite o op) (op.run listen o (w.beginWrite o op)) := by
    rw [Operation.run_eq]
    cases hμ : op.mutation? (w.beginWrite o op).model o with
    | error fault => exact .refl hbegun
    | ok μ =>
      refine goes_of_mutation? hlisten hμ ?_ hbegun
      rintro a ha rfl rfl
      obtain ⟨key, v, hannounced, hputs, _⟩ := Operation.put?_of_map h.map hμ
      rw [hannounced] at ha
      obtain rfl := List.mem_singleton.1 ha
      rw [Deed.put?_wrote, hputs, if_pos rfl] at hother
      cases hother
  refine ⟨hrun.ready.resume _, hrun.renews, rfl, (List.suffix_cons _ _).trans hrun.deeds,
    fun c hc => ?_⟩
  rcases hrun.awaits c hc with hawaits | hgone
  · have hdeeds : Awaits s r k c (.wrote o op w.model :: w.client.deeds) := hawaits
    rw [Awaits, hother] at hdeeds
    exact .inl hdeeds
  · exact .inr hgone

/-- A write. -/
theorem write_goes (o : ObjectId) (op : Operation) (w : World Chronicle) :
    Goes s r k w (w.write listen o op) := by
  intro h
  cases hput : (Deed.wrote o op w.model).put? r k with
  | none => exact write_other hlisten hput h
  | some v =>
    unfold Deed.put? at hput
    dsimp only at hput
    split at hput
    · rename_i ho
      subst ho
      exact write_own hlisten hput h
    · cases hput

end Turns

/-- A run. -/
theorem goes_of_unfolds (h : Unfolds s r k w w') : Goes s r k w w' := by
  induction h with
  | done w => exact goes_steady.refl w
  | write _ _ ih ihrest => exact goes_steady.trans (write_goes ih _ _ _) ihrest
  | change renews contents reserved _ ihrest =>
    refine goes_steady.trans (goes_of_model renews (fun hr => by rw [contents r hr])
      (fun hr _ => ?_) reserved) ihrest
    unfold Model.get
    rw [contents r hr]

end Chronicle

/-- In a run, with everybody told of everything, every handler that is connected to a property since
before its last write was called since then. What it was called with last is what the write that it
was told of gave the property; and that is the value that the property has now, unless the property
was written again between that write and the call. -/
theorem Unfolds.called_latest {s : Sink} {r : ObjectId} {k : String} {m : Model}
    {w : World Chronicle} (run : Unfolds s r k ⟨m, {}⟩ w) (hn : m.Numbered)
    (hr : r < m.objects.size) (hmap : (m.store r).isList = false)
    (hreserved : m.Reserved s r k) {later earlier : List Deed} {op : Operation} {m₀ : Model}
    {v₀ : Value} (hdeeds : w.client.deeds = later ++ .wrote r op m₀ :: earlier)
    (hput : op.put? k = some v₀) (hlast : ∀ d ∈ later, d.put? r k = none) {c : Connection}
    (hbefore : c ∈ m₀.handlersOf r k) (hhandler : c.handler = .report s)
    (hafter : c ∈ w.model.connectionsOf r) :
    w.model.get r k = v₀ ∧ ∃ recent call between v, later = recent ++ call ∧
      (∀ d ∈ recent, d.heard? s = none) ∧
      Delivers s r k v between (call ++ .wrote r op m₀ :: earlier) ∧
      (v = w.model.get r k ∨ ∃ d ∈ between, (d.put? r k).isSome = true) := by
  have hready : Chronicle.Ready s r k ⟨m, {}⟩ :=
    ⟨hn, hr, hmap, hreserved, founded_nil, nofun⟩
  have hfollows := Chronicle.goes_of_unfolds run hready
  -- It does not wait at the end: nobody waited at the beginning, and it is connected.
  have hcalled : ¬ Awaits s r k c w.client.deeds := by
    intro hawaits
    rcases hfollows.awaits c hawaits with hawaits | hgone
    · exact hawaits
    · exact hgone.1 hafter
  rw [hdeeds] at hcalled
  obtain ⟨recent, n, since, before, v, rfl, hrecent, hv⟩ :=
    exists_told_of_not_awaits hput hlast hbefore hhandler hcalled
  have hquiet {ds : List Deed} (h : ∀ d ∈ ds, d.put? r k = none) (rest : List Deed) :
      (ds ++ rest).findSome? (Deed.put? r k) = rest.findSome? (Deed.put? r k) := by
    rw [List.findSome?_append, List.findSome?_eq_none_iff.2 h, Option.none_or]
  have hvalue : w.model.get r k = v₀ := by
    refine hfollows.ready.stored v₀ ?_
    rw [hdeeds, hquiet hlast, List.findSome?_cons, Deed.put?_wrote, hput]
  -- The call is a deed of the whole chronicle, which is founded.
  rw [List.append_assoc, List.cons_append] at hdeeds
  have hsuffix : .told n since :: (before ++ .wrote r op m₀ :: earlier) <:+ w.client.deeds := by
    rw [hdeeds]
    exact List.suffix_append _ _
  obtain ⟨between, hdelivers⟩ := hfollows.ready.founded n since _ v hsuffix hv
  refine ⟨hvalue, recent, _, between, v, rfl, hrecent, hdelivers, ?_⟩
  by_cases hagain : ∃ d ∈ between, (d.put? r k).isSome = true
  · exact .inr hagain
  -- Otherwise the write that it was told of is the last one.
  left
  have hbetween : ∀ d ∈ between, d.put? r k = none := by
    intro d hd
    rw [← Option.not_isSome_iff_eq_none]
    exact fun hsome => hagain ⟨d, hd, hsome⟩
  obtain ⟨n', op', m', base, hcall, _, hput'⟩ := hdelivers
  refine (hfollows.ready.stored v ?_).symm
  have hrecent' : ∀ d ∈ recent, d.put? r k = none :=
    fun d hd => hlast d (List.mem_append_left _ hd)
  rw [hdeeds, hquiet hrecent', hcall, List.findSome?_cons]
  show (between ++ .wrote r op' m' :: base).findSome? (Deed.put? r k) = some v
  rw [hquiet hbetween, List.findSome?_cons, Deed.put?_wrote, hput']

/-- An object with two handlers for a key. -/
def Model.paired : Model :=
  let m := (Model.add {} (.map .empty)).2.ensureBinding 0
  let m := (m.connect 0 "k" (.report ⟨1, none⟩)).2
  (m.connect 0 "k" (.report ⟨2, none⟩)).2

/-- The numbers of its handlers are in order. -/
theorem Model.numbered_paired : Model.paired.Numbered :=
  numbered_of_moves <|
    .next noting_moves (.add (s := .map .empty)) <|
    .next noting_moves (.proxy (o := 0)) <|
    .next noting_moves (.subscribe (o := 0) (k := 1) (s := .connect "k")) <|
    .next noting_moves (.subscribe (o := 0) (k := 2) (s := .connect "k")) <|
    .done ⟨Model.paired, []⟩

/-- The function of the second handler is told of the key alone. -/
theorem Model.reserved_paired : Model.paired.Reserved ⟨2, none⟩ 0 "k" := by
  refine ⟨fun o c hc => ?_, fun d deep hd => ?_, fun keys hkeys => ?_⟩
  · match o with
    | 0 =>
      rcases List.mem_pair.1 hc with rfl | rfl
      · exact .inr (show (⟨2, none⟩ : Sink) ≠ ⟨1, none⟩ by decide)
      · exact .inl ⟨rfl, rfl, rfl⟩
    | o + 1 => cases hc
  · cases hd
  · cases hkeys

namespace Chronicle

/-- A client one of whose functions, when it is told true, writes false to the key. -/
def answering (f : CallbackId) : Listener Chronicle := fun n u =>
  match n with
  | .value f' (.bool true) =>
    if f' = f then (u.enter n).write World.enter 0 (.set "k" (.bool false)) else u.enter n
  | n => u.enter n

/-- True is written to the key. -/
def answered (f : CallbackId) : World Chronicle :=
  World.write (answering f) 0 (.set "k" (.bool true)) ⟨Model.paired, {}⟩

/-- That is a run. -/
theorem unfolds_answered (f : CallbackId) :
    Unfolds ⟨2, none⟩ 0 "k" ⟨Model.paired, {}⟩ (answered f) := by
  refine .write (fun n u => ?_) (.done _)
  unfold answering
  split
  · split
    · exact .write (fun _ _ => .done _) (.done _)
    · exact .done _
  · exact .done _

end Chronicle

/-- When the second function writes the key again, both handlers are called with the later value
last. -/
theorem Unfolds.called_latest_answered : ∃ m₀ earlier,
    ((Chronicle.answered 2).client.deeds =
        [.told (.value 2 (.bool false)) 3, .told (.value 1 (.bool false)) 3] ++
          .wrote 0 (.set "k" (.bool false)) m₀ :: earlier ∧
      Unfolds ⟨2, none⟩ 0 "k" ⟨Model.paired, {}⟩ (Chronicle.answered 2) ∧
      Model.paired.Numbered ∧ Model.paired.Reserved ⟨2, none⟩ 0 "k" ∧
      ⟨2, "k", .report ⟨2, none⟩⟩ ∈ m₀.handlersOf 0 "k" ∧
      ⟨2, "k", .report ⟨2, none⟩⟩ ∈ (Chronicle.answered 2).model.connectionsOf 0) ∧
    (Chronicle.answered 2).model.get 0 "k" = .bool false ∧ ∃ recent call between v,
      [.told (.value 2 (.bool false)) 3, .told (.value 1 (.bool false)) 3] = recent ++ call ∧
      (∀ d ∈ recent, d.heard? ⟨2, none⟩ = none) ∧
      Delivers ⟨2, none⟩ 0 "k" v between
        (call ++ .wrote 0 (.set "k" (.bool false)) m₀ :: earlier) ∧
      (v = (Chronicle.answered 2).model.get 0 "k" ∨
        ∃ d ∈ between, (d.put? 0 "k").isSome = true) := by
  obtain ⟨m₀, earlier, hdeeds, hbefore⟩ : ∃ m₀ earlier, (Chronicle.answered 2).client.deeds =
      [.told (.value 2 (.bool false)) 3, .told (.value 1 (.bool false)) 3] ++
        .wrote 0 (.set "k" (.bool false)) m₀ :: earlier ∧
      ⟨2, "k", .report ⟨2, none⟩⟩ ∈ m₀.handlersOf 0 "k" :=
    ⟨_, _, rfl, List.mem_cons_of_mem _ List.mem_cons_self⟩
  have hafter : ⟨2, "k", .report ⟨2, none⟩⟩ ∈ (Chronicle.answered 2).model.connectionsOf 0 :=
    List.mem_cons_of_mem _ List.mem_cons_self
  have hlast : ∀ d ∈ ([.told (.value 2 (.bool false)) 3, .told (.value 1 (.bool false)) 3] :
      List Deed), d.put? 0 "k" = none := by
    intro d hd
    rcases List.mem_pair.1 hd with rfl | rfl <;> rfl
  have hrun := Chronicle.unfolds_answered 2
  exact ⟨m₀, earlier, ⟨hdeeds, hrun, Model.numbered_paired, Model.reserved_paired, hbefore, hafter⟩,
    called_latest hrun Model.numbered_paired (by decide) rfl Model.reserved_paired hdeeds rfl hlast
      hbefore rfl hafter⟩

/-- An object with a handler for a key that its binding does not tell of. -/
def Model.muted : Model :=
  let m := (Model.bind (.object 0) (some ["x"]) (Model.add {} (.map .empty)).2).2
  (m.connect 0 "k" (.report ⟨2, none⟩)).2

/-- True is written to this key. -/
def Chronicle.silenced : World Chronicle :=
  World.write World.enter 0 (.set "k" (.bool true)) ⟨Model.muted, {}⟩

/-- When the first function writes the key again, the second one is called with the later value
first and with the earlier one last. Where the binding does not tell of the key, it is not called
at all. -/
theorem Chronicle.not_called_latest :
    Unfolds ⟨2, none⟩ 0 "k" ⟨Model.paired, {}⟩ (answered 1) ∧ Model.paired.Numbered ∧
    (Model.paired.store 0).isList = false ∧ Model.paired.Reserved ⟨2, none⟩ 0 "k" ∧
    (∃ later m₀ earlier, (answered 1).client.deeds =
        later ++ .wrote 0 (.set "k" (.bool false)) m₀ :: earlier ∧
      later.findSome? (Deed.put? 0 "k") = none ∧
      later.findSome? (Deed.heard? ⟨2, none⟩) = some (.bool true) ∧
      ⟨2, "k", .report ⟨2, none⟩⟩ ∈ m₀.connectionsOf 0) ∧
    ⟨2, "k", .report ⟨2, none⟩⟩ ∈ (answered 1).model.connectionsOf 0 ∧
    (answered 1).model.get 0 "k" = .bool false ∧
    ⟨1, "k", .report ⟨2, none⟩⟩ ∈ silenced.model.connectionsOf 0 ∧
    silenced.client.deeds = [.wrote 0 (.set "k" (.bool true)) Model.muted] ∧
    silenced.model.get 0 "k" = .bool true := by
  have hdeeds : ∃ m₀ earlier, (answered 1).client.deeds =
      [.told (.value 2 (.bool true)) 0, .told (.value 2 (.bool false)) 2,
          .told (.value 1 (.bool false)) 2] ++
        .wrote 0 (.set "k" (.bool false)) m₀ :: earlier ∧
      ⟨2, "k", .report ⟨2, none⟩⟩ ∈ m₀.connectionsOf 0 :=
    ⟨_, _, rfl, List.mem_cons_of_mem _ List.mem_cons_self⟩
  obtain ⟨m₀, earlier, hdeeds, hbefore⟩ := hdeeds
  exact ⟨unfolds_answered 1, Model.numbered_paired, rfl, Model.reserved_paired,
    ⟨_, m₀, earlier, hdeeds, rfl, rfl, hbefore⟩, List.mem_cons_of_mem _ List.mem_cons_self, rfl,
    List.mem_cons_self, rfl, rfl⟩

end LiveScope
