import LiveScope.Proofs.Release.Ledger
import LiveScope.Proofs.World.Requests

/-!
# Releases are exact

`Release.Step` are the operations of a run: writes, subscriptions of functions that were not
subscribed before, and releases, each at the top or from inside a function that is told something.
Each of them leads from a sound world to a sound world, also in the middle of dispatches that list
what it releases: whoever's turn comes is looked up again, and no number is given out twice, so that
only what is still there is told (`Leads.handlerTurn`). So the tables are in order in every run
(`Release.orderly_of_moves`), and `Release.exact_of_moves` is the result: in every run, releases are
exact.
-/

namespace LiveScope

open History

variable {listen : Listener History} {w w' u : World History} {o : ObjectId} {v : Value}

/-! ## What is told -/

/-- A sink tells its function. -/
theorem Sink.tells_notice {sink : Sink} {k : CallbackId} (h : (sink.notice v).Tells k) :
    sink.callback = k := by
  unfold Sink.notice at h
  split at h <;> exact h

/-- What is connected tells no function that was released. -/
theorem Sound.not_released_of_connected (hs : Sound w) {c : Connection} {k : CallbackId}
    (hc : c ∈ w.model.connectionsOf o) (htells : w.model.handlerCallback c.handler = some k) :
    ¬ Released k w.client :=
  fun hk => (hs.ledger.silent k hk).2.handlers o c hc htells

/-- What watches tells no function that was released. -/
theorem Sound.not_released_of_watching (hs : Sound w) {x : Watcher} {k : CallbackId}
    (hx : x ∈ w.model.watchersOf o) (htells : w.model.watchCallback x.watch = some k) :
    ¬ Released k w.client :=
  fun hk => (hs.ledger.silent k hk).2.watchers o x hx htells

namespace Leads

section Listening

variable (hlisten : ∀ n u, Leads (u.record (.told n)) (listen n u))

include hlisten

/-- The history goes on when something is told. -/
theorem told_suffix (n : Notice) (w : World History) :
    .told n :: w.client <:+ (listen n w).client :=
  (hlisten n w).grows

/-- The history goes on whatever is told. -/
theorem listen_grows (n : Notice) (w : World History) : w.client <:+ (listen n w).client :=
  (List.suffix_cons _ _).trans (told_suffix hlisten n w)

/-- To tell something leads on if no function is told that was released. -/
theorem tell {n : Notice} (hn : ∀ k, n.Tells k → ¬ Released k w.client) :
    Leads w (listen n w) := by
  refine ⟨listen_grows hlisten n w, fun hhealthy hs => ?_⟩
  have hs' : Sound (w.record (.told n)) := by
    refine ⟨hs.orderly, hs.ledger.told n, hs.exact.cons ?_ ?_ ?_⟩
    · intro _ _ _ heq
      cases heq
    · intro _ _ heq
      cases heq
    · intro n' heq k hk htells
      obtain rfl := Event.told.inj heq
      exact hn k htells hk
  obtain ⟨hs'', hf⟩ := (hlisten n w).sound hhealthy hs'
  refine ⟨hs'', (Model.Follows.refl _ _).trans hf fun k hk => ?_⟩
  exact hk.mono (List.suffix_cons _ _)

/-- That histories go on is a relation that listening stays within. -/
theorem grows_within :
    Steady (fun w w' : World History => w.client <:+ w'.client) ∧
      World.Attends (fun w w' : World History => w.client <:+ w'.client) ∧
      ∀ n u, u.client <:+ (listen n u).client :=
  ⟨World.history_steady, World.history_attends, listen_grows hlisten⟩

/-- To tell something while objects are held. -/
theorem tell_holding (hs : List Hold) {n : Notice} (hn : ∀ k, n.Tells k → ¬ Released k w.client) :
    Leads w (w.holding hs (listen n)) :=
  holding (tell hlisten hn)

/-- To tell the function of a deep watch leads on if it was not released. -/
theorem tell_deep {deep : DeepWatch} (h : ¬ Released deep.callback w.client) :
    Leads w (deep.tell listen w) := by
  unfold DeepWatch.tell
  split
  · refine tell_holding hlisten _ fun k htells => ?_
    obtain rfl : deep.callback = k := htells
    exact h
  · exact steady.refl w

/-- Running a handler leads on if it is still connected. -/
theorem handler {c : Connection} (hc : c ∈ w.model.connectionsOf o)
    (hv : ∀ q, v = .object q → q < w.model.objects.size) :
    Leads w (c.handler.run listen v w) := by
  obtain ⟨hI, ha, hgrows⟩ := grows_within hlisten
  refine of_sound (World.handler_within hI ha hgrows v c.handler w) fun hs => ?_
  have hlive {k : CallbackId} (htells : w.model.handlerCallback c.handler = some k) :
      ¬ Released k w.client := hs.not_released_of_connected hc htells
  cases hh : c.handler with
  | report sink =>
    refine tell hlisten fun k htells => hlive ?_
    rw [hh, ← Sink.tells_notice htells]
    rfl
  | recompute field f =>
    unfold Handler.run Formula.update
    dsimp only
    split
    · split
      · refine tell_holding hlisten _ fun k htells => hlive ?_
        rw [hh, ← Sink.tells_notice htells]
        rfl
      · exact tell hlisten fun k htells => htells.elim
    · exact steady.refl w
  | follow d =>
    unfold Handler.run
    dsimp only
    cases hdeep : w.model.deep? d with
    | none => exact steady.refl w
    | some deep =>
      dsimp only
      cases hret : Model.retarget d v w.model with
      | mk r m =>
        cases r with
        | error fault =>
          -- The deep watch warns of the refusal, and a history with a warning is not healthy.
          refine of_not_healthy ?_ fun hhealthy => ?_
          · exact ((listen_grows hlisten _ { w with model := m }).trans (listen_grows hlisten _ _))
          · refine (hhealthy deep.key fault).1 ((listen_grows hlisten _ _).subset ?_)
            exact (told_suffix hlisten _ _).subset List.mem_cons_self
        | ok =>
          have hmoved : Leads w { w with model := m } := by
            rcases Model.regrown_retarget hs.orderly.whole (by rw [hdeep]; rfl) hv hret with
              rfl | ⟨gone, added, hregrown⟩
            · exact steady.refl w
            · exact of_eases (.regrown hregrown fun _ _ => .inl ⟨o, c, hc, hh⟩)
                hregrown.swapped.rewatches.registrationsOf
          refine steady.trans hmoved (tell hlisten fun k htells => hlive ?_)
          rw [hh, Model.handlerCallback_follow hdeep]
          exact congrArg some htells

/-- Running a watcher leads on if it still watches. -/
theorem watcher {x : Watcher} (hx : x ∈ w.model.watchersOf o) (key : String)
    (hv : ∀ q, v = .object q → q < w.model.objects.size) :
    Leads w (x.run listen o key v w) := by
  obtain ⟨hI, ha, hgrows⟩ := grows_within hlisten
  refine of_sound (World.watcher_within hI ha hgrows o key v x w) fun hs => ?_
  have hlive {k : CallbackId} (htells : w.model.watchCallback x.watch = some k) :
      ¬ Released k w.client := hs.not_released_of_watching hx htells
  unfold Watcher.run
  cases hw : x.watch with
  | report callback =>
    refine tell hlisten fun k htells => hlive ?_
    rw [hw]
    exact congrArg some htells
  | mend d =>
    dsimp only
    cases hdeep : w.model.deep? d with
    | none => exact steady.refl w
    | some deep =>
      dsimp only
      cases hmend : Model.mend d o x.seq key v w.model with
      | mk r m =>
        cases r with
        | error fault =>
          -- The deep watch warns before it tells, and a history with a warning is not healthy.
          refine of_not_healthy ?_ fun hhealthy => ?_
          · exact (listen_grows hlisten _ { w with model := m }).trans
              (World.tell_within hI ha hgrows deep _)
          · refine (hhealthy key fault).2 ((World.tell_within hI ha hgrows deep _).subset ?_)
            exact (told_suffix hlisten _ _).subset List.mem_cons_self
        | ok =>
          have hmended : Leads w { w with model := m } := by
            rcases Model.regrown_mend hs.orderly.whole hv (fun t ht =>
              ⟨Model.watched_of_tree? ht ▸ hs.orderly.nodup d, hs.orderly.keyed d t ht⟩) hmend with
              rfl | ⟨out, gone, added, hregrown⟩
            · exact steady.refl w
            · exact of_eases (.regrown hregrown fun _ _ => .inr ⟨o, x, hx, hw⟩)
                hregrown.swapped.rewatches.registrationsOf
          refine steady.trans hmended (tell_deep hlisten (hlive ?_))
          rw [hw]
          exact Model.handlerCallback_follow hdeep

/-- The turn of a handler that was connected when a dispatch began. -/
theorem handlerTurn {c : Connection} (hc : c ∈ w.model.connectionsOf o)
    (hv : ∀ q, v = .object q → q < w.model.objects.size) (h : Leads w u) :
    Leads w (World.handlerTurn listen o v u c) := by
  obtain ⟨hI, ha, hgrows⟩ := grows_within hlisten
  refine h.extend (World.handlerTurn_within hI ha.loose fun _ =>
    World.handler_within hI ha hgrows v c.handler u) fun hs _ hf => ?_
  -- What is connected under the number now is what was connected under it then.
  have hstill (hconnected : u.model.isConnected o ⟨c.key, c.seq⟩ = true) :
      c ∈ u.model.connectionsOf o := by
    obtain ⟨c', hc', hseq⟩ := List.any_eq_true.1 hconnected
    obtain ⟨hmem, _⟩ := Model.mem_handlersOf.1 hc'
    have heq : c'.seq = c.seq := beq_iff_eq.1 hseq
    have hle := (hs.orderly.connections o).bounded c.seq (List.mem_map.2 ⟨c, hc, rfl⟩)
    have hold := hf.persists.connections o c' hmem (heq ▸ hle)
    obtain rfl := (hs.orderly.connections o).eq_of_number hold hc heq
    exact hmem
  unfold World.handlerTurn
  refine steady.trans ?_ (releaseAll _ _)
  split
  · rename_i hconnected
    exact handler hlisten (hstill hconnected)
      fun q hq => Nat.lt_of_lt_of_le (hv q hq) hf.persists.size
  · exact steady.refl u

/-- The turn of a watcher that was registered when a dispatch began. -/
theorem watcherTurn {x : Watcher} (hx : x ∈ w.model.watchersOf o) (key : String)
    (hv : ∀ q, v = .object q → q < w.model.objects.size) (h : Leads w u) :
    Leads w (World.watcherTurn listen o key v u x) := by
  obtain ⟨hI, ha, hgrows⟩ := grows_within hlisten
  refine h.extend (World.watcherTurn_within hI fun _ =>
    World.watcher_within hI ha hgrows o key v x u) fun hs _ hf => ?_
  have hstill (hwatching : u.model.isWatching o x.seq = true) : x ∈ u.model.watchersOf o := by
    obtain ⟨x', hx', hseq⟩ := List.any_eq_true.1 hwatching
    have heq : x'.seq = x.seq := beq_iff_eq.1 hseq
    have hle := (hs.orderly.watchers o).bounded x.seq (List.mem_map.2 ⟨x, hx, rfl⟩)
    have hold := hf.persists.watchers o x' hx' (heq ▸ hle)
    obtain rfl := (hs.orderly.watchers o).eq_of_number hold hx heq
    exact hx'
  unfold World.watcherTurn
  split
  · rename_i hwatching
    exact watcher hlisten (hstill hwatching) key
      fun q hq => Nat.lt_of_lt_of_le (hv q hq) hf.persists.size
  · exact steady.refl u

/-- A dispatch leads on. -/
theorem notify (key : String) (hv : ∀ q, v = .object q → q < w.model.objects.size) :
    Leads w (w.notify listen o key v) := by
  rw [World.notify_eq]
  split
  · have hhandlers : ∀ cs : List Connection, (∀ c ∈ cs, c ∈ w.model.connectionsOf o) →
        ∀ u, Leads w u → Leads w (cs.foldl (World.handlerTurn listen o v) u) := by
      intro cs
      induction cs with
      | nil => exact fun _ _ h => h
      | cons c cs ih =>
        intro hcs u h
        exact ih (fun c' hc' => hcs c' (List.mem_cons_of_mem _ hc')) _
          (handlerTurn hlisten (hcs c List.mem_cons_self) hv h)
    have hwatchers : ∀ xs : List Watcher, (∀ x ∈ xs, x ∈ w.model.watchersOf o) →
        ∀ u, Leads w u → Leads w (xs.foldl (World.watcherTurn listen o key v) u) := by
      intro xs
      induction xs with
      | nil => exact fun _ _ h => h
      | cons x xs ih =>
        intro hxs u h
        exact ih (fun x' hx' => hxs x' (List.mem_cons_of_mem _ hx')) _
          (watcherTurn hlisten (hxs x List.mem_cons_self) key hv h)
    refine hwatchers _ (fun _ hx => hx) _ (hhandlers _ (fun c hc => ?_) _ (holds w _))
    exact (Model.mem_handlersOf.1 hc).1
  · exact steady.refl w

/-- To tell of one announcement after the other leads on. -/
theorem announce {announcements : List (String × Value)}
    (hv : ∀ a ∈ announcements, ∀ q, a.2 = .object q → q < w.model.objects.size) (h : Leads w u) :
    Leads w (Mutation.announce listen o announcements u) := by
  obtain ⟨hI, ha, hgrows⟩ := grows_within hlisten
  unfold Mutation.announce
  induction announcements generalizing u with
  | nil => exact h
  | cons a rest ih =>
    refine ih (fun b hb => hv b (List.mem_cons_of_mem a hb)) ?_
    refine h.extend (World.notify_within hI ha hgrows o a.1 a.2 u) fun _ _ hf => ?_
    exact notify hlisten a.1
      fun q hq => Nat.lt_of_lt_of_le (hv a List.mem_cons_self q hq) hf.persists.size

/-- A write leads on, if the value that is written exists. -/
theorem write {op : Operation}
    (hv : ∀ q, op.value? = some (.object q) → q < w.model.objects.size) :
    Leads w (op.run listen o w) := by
  obtain ⟨hI, ha, hgrows⟩ := grows_within hlisten
  refine of_sound (op.run_within hI ha hgrows fun _ _ => List.suffix_refl _) fun hs => ?_
  rw [Operation.run_eq]
  cases hμ : op.mutation? w.model o with
  | error => exact steady.refl w
  | ok μ =>
    dsimp only
    have hexist {q : ObjectId}
        (hq : .object q ∈ μ.store.values ∨ ∃ a ∈ μ.announcements, a.2 = .object q) :
        q < w.model.objects.size :=
      (Operation.object_mem_of_mutation? hμ hq).elim (hs.orderly.whole o q) (hv q)
    have hsize : (w.model.setStore μ.object μ.store).objects.size = w.model.objects.size :=
      Model.size_modifyObject _ _ _
    have hwritten : Leads w (w.mapModel (·.setStore μ.object μ.store)) := by
      have halike := Model.alike_setStore w.model μ.object μ.store
      refine of_eases (halike.eases fun hwhole p q hq => ?_) halike.registrationsOf
      rw [hsize]
      rw [Model.store_setStore] at hq
      split at hq
      · exact hexist (.inl hq)
      · exact hwhole p q hq
    refine steady.trans hwritten (holding (announce hlisten (fun a ha q hq => ?_) (steady.refl _)))
    exact Nat.lt_of_lt_of_eq (hexist (.inr ⟨a, ha, hq⟩)) hsize.symm

end Listening

end Leads

/-! ## What is subscribed -/

/-- The history goes on while something is subscribed. -/
theorem Subscription.grows (hgrows : ∀ n (u : World History), u.client <:+ (listen n u).client)
    (s : Subscription) (k : CallbackId) (w : World History) :
    w.client <:+ (s.run listen o k w).2.client :=
  s.run_within World.history_steady World.history_attends.loose hgrows
    (Model.renews_alters.binds o w.model) (fun _ _ => List.suffix_rfl) k

namespace Release

/-- Records the number that a subscription was given. -/
def given (o : ObjectId) (k : CallbackId) (r : Except Fault (Option Nat)) (w : World History) :
    World History :=
  match r with
  | .ok (some id) => w.record (.bound o id k)
  | _ => w

/-- Records that a function is handed in, subscribes it, and records the number that this gives. -/
def subscribe (listen : Listener History) (o : ObjectId) (k : CallbackId) (s : Subscription)
    (w : World History) : World History :=
  let (r, w) := s.run listen o k (w.record (.asked o k))
  given o k r w

/-- An operation of a run. Functions are told apart by what they were subscribed for: each is
subscribed once. -/
inductive Step : Listener History → World History → World History → Prop
  /-- A write of an object, of a value that exists. -/
  | write {listen : Listener History} {w : World History} {o : ObjectId} {op : Operation}
      (exist : ∀ q, op.value? = some (.object q) → q < w.model.objects.size) :
      Step listen w (op.run listen o w)
  /-- A function is subscribed from an object, and no object is found to lie too deep. -/
  | subscribe {listen : Listener History} {w : World History} {o : ObjectId} {k : CallbackId}
      (s : Subscription) (new : ¬ w.client.Asked k) (bound : w.model.isBound o = true)
      (shallow : (s.run listen o k (w.record (.asked o k))).1 ≠ .error .nestedObjects) :
      Step listen w (subscribe listen o k s w)
  /-- A handler is removed by its number. -/
  | disconnect {listen : Listener History} {w : World History} {o : ObjectId}
      {id : SubscriptionId} : Step listen w (w.mapModel fun m => (m.disconnect o id).2)
  /-- A watcher is removed by its number. -/
  | unwatch {listen : Listener History} {w : World History} {o : ObjectId} {seq : Nat} :
      Step listen w (w.mapModel fun m => (m.unwatch o seq).2)
  /-- A registration is released. -/
  | unbind {listen : Listener History} {w : World History} {o : ObjectId} {id : Nat} :
      Step listen w ((w.record (.released o id w.model)).mapModel fun m => (m.unbind o id).2)
  /-- All that is bound to an object is released. -/
  | unbindAll {listen : Listener History} {w : World History} {o : ObjectId} :
      Step listen w ((w.record (.cleared o w.model)).mapModel fun m => m.unbindAll o)
  /-- Anything else that does not concern the tables: objects are made, given bindings, linked,
  restricted or changed without telling. -/
  | other {listen : Listener History} {w : World History} {m : Model} (alike : w.model.Alike m)
      (whole : m.Whole) : Step listen w { w with model := m }

/-- To subscribe a function that was not subscribed before leads on. -/
theorem subscribe_leads (hlisten : ∀ n u, Leads (u.record (.told n)) (listen n u)) {k : CallbackId}
    (s : Subscription) (hnew : ¬ w.client.Asked k) (hb : w.model.isBound o = true)
    (hshallow : (s.run listen o k (w.record (.asked o k))).1 ≠ .error .nestedObjects) :
    Leads w (subscribe listen o k s w) := by
  let w₁ := w.record (.asked o k)
  have hgrows : w₁.client <:+ (s.run listen o k w₁).2.client :=
    s.grows (Leads.listen_grows hlisten) k w₁
  have hgiven (r : Except Fault (Option Nat)) (u : World History) :
      u.client <:+ (given o k r u).client := by
    unfold given
    split
    · exact List.suffix_cons _ _
    · exact List.suffix_refl _
  have hsubscribe : subscribe listen o k s w =
      given o k (s.run listen o k w₁).1 (s.run listen o k w₁).2 := rfl
  rw [hsubscribe]
  refine Leads.of_sound ((List.suffix_cons _ _).trans (hgrows.trans (hgiven _ _))) fun hs => ?_
  obtain ⟨id, m, hsubscribed, hid, hrun⟩ :=
    s.done_run (w := w₁) hs.orderly hs.ledger.knows hnew hb hshallow
  have hasked : Leads w { w₁ with model := m } := by
    refine ⟨List.suffix_cons _ _, fun _ hs => ⟨⟨hsubscribed.orderly, hs.ledger.asked hsubscribed,
      hs.exact.cons ?_ ?_ ?_⟩, hsubscribed.follows⟩⟩
    · intro _ _ _ heq
      cases heq
    · intro _ _ heq
      cases heq
    · intro _ heq
      cases heq
  have hnot : ¬ Released k w₁.client := by
    intro hk
    cases hk with
    | later hk => exact hnew (hs.ledger.silent k hk).1
  have htold : Leads { w₁ with model := m } (s.run listen o k w₁).2 := by
    rcases hrun with hrun | ⟨hs, v, hrun⟩
    · rw [hrun]
      exact Leads.steady.refl _
    · rw [hrun]
      refine Leads.tell_holding hlisten _ fun k' htells => ?_
      obtain rfl : k = k' := htells
      exact hnot
  refine Leads.steady.trans hasked (htold.extend (hgiven _ _) fun _ hs' hf => ?_)
  generalize (s.run listen o k w₁).1 = r at hid
  generalize (s.run listen o k w₁).2 = u at *
  -- The number is given back when the function has been told, which may have released it already.
  have hk : Asked w₁.client k := ⟨o, List.mem_cons_self⟩
  unfold given
  split
  · rename_i i
    refine ⟨List.suffix_cons _ _, fun _ hs' => ⟨⟨hs'.orderly, ?_, hs'.exact.cons ?_ ?_ ?_⟩,
      .refl _ _⟩⟩
    · exact hs'.ledger.bound (hk.mono htold.grows) (hf.held hk (hsubscribed.held i (hid i rfl)))
    · intro _ _ _ heq
      cases heq
    · intro _ _ heq
      cases heq
    · intro _ heq
      cases heq
  · exact Leads.steady.refl _

/-- Every operation of a run leads on. -/
theorem leads_of_step (hlisten : ∀ n u, Leads (u.record (.told n)) (listen n u))
    (h : Step listen w w') : Leads w w' := by
  cases h with
  | write exist => exact Leads.write hlisten exist
  | subscribe s new bound shallow => exact subscribe_leads hlisten s new bound shallow
  | disconnect =>
    exact .of_eases (Model.eases_of_sheds (Binding.sheds_disconnect _) _ _)
      (Model.elim_modifyBinding (·.registrations) (fun _ => by rfl) [] w.model _)
  | unwatch =>
    exact .of_eases (Model.eases_of_sheds (Binding.sheds_unwatch _) _ _)
      (Model.elim_modifyBinding (·.registrations) (fun _ => by rfl) [] w.model _)
  | unbind =>
    -- The release is recorded, and it takes out all that tells a function of the registration.
    rename_i o id
    refine ⟨List.suffix_cons _ _, fun _ hs => ?_⟩
    have heased := Model.eases_unbind w.model o id hs.orderly hs.ledger.knows
    refine ⟨⟨heased.orderly, hs.ledger.unbind hs.orderly o id, hs.exact.cons ?_ ?_ ?_⟩,
      heased.persists, fun p r hr k _ => Model.released_unbind hs.orderly o id p hr⟩
    · intro o' id' before heq k hk
      obtain ⟨rfl, rfl, rfl⟩ := Event.released.inj heq
      exact Model.removes_unbind hs.orderly (hs.ledger.held _ _ k hk).2
    · intro _ _ heq
      cases heq
    · intro _ heq
      cases heq
  | unbindAll =>
    -- The same for all registrations of the object at once.
    rename_i o
    refine ⟨List.suffix_cons _ _, fun _ hs => ?_⟩
    have heased := Model.eases_unbindAll w.model o hs.orderly hs.ledger.knows
    refine ⟨⟨heased.orderly, hs.ledger.unbindAll hs.orderly o, hs.exact.cons ?_ ?_ ?_⟩,
      heased.persists,
      fun p r hr k _ => Model.released_unbindAll hs.orderly o p (hs.ledger.registered o) hr⟩
    · intro _ _ _ heq
      cases heq
    · intro o' before heq
      obtain ⟨rfl, rfl⟩ := Event.cleared.inj heq
      exact Model.removes_unbindAll hs.orderly (hs.ledger.registered _)
        fun k hk => hs.ledger.issued _ k hk
    · intro _ heq
      cases heq
  | other alike whole => exact .of_eases (alike.eases fun _ => whole) alike.registrationsOf

/-- A model without objects is in order. -/
theorem orderly_empty : Model.Orderly {} :=
  .of_unsubscribed (fun _ _ h => by cases h) (fun _ => rfl) (fun _ => rfl) (fun _ => rfl) rfl

/-- Where nothing has happened, nothing is told. -/
theorem ledger_empty : Ledger {} [] where
  knows := ⟨fun _ _ h => (by cases h), fun _ _ h => (by cases h), fun _ _ h => (by cases h)⟩
  registered _ _ h := by cases h
  issued _ _ h := by cases h
  held _ _ _ h := by cases h
  silent _ h := by cases h

/-- At the start there are no objects, and nothing has happened. -/
theorem sound_start : Sound ⟨{}, []⟩ where
  orderly := orderly_empty
  ledger := ledger_empty
  exact := by
    have hnever {e : Event} {earlier : History} : ¬ e :: earlier <:+ [] := fun h => by
      cases List.suffix_nil.1 h
    refine ⟨fun _ _ _ _ h => absurd h hnever, fun _ _ _ h => absurd h hnever, ?_⟩
    exact fun _ _ h => absurd h hnever

/-- In every run in which no object was found to lie too deep the world is sound. -/
theorem sound_of_moves (moves : Moves Step ⟨{}, []⟩ w) (healthy : w.client.Healthy) : Sound w := by
  have hleads : Leads ⟨{}, []⟩ w :=
    moves.within Leads.steady fun _ _ _ hlisten h => leads_of_step hlisten h
  exact (hleads.sound healthy sound_start).1

/-- So the tables are in order at any time, and a function that was not subscribed yet is nowhere in
them. A deep watch that is set up for it relies on both. -/
theorem orderly_of_moves (moves : Moves Step ⟨{}, []⟩ w) (healthy : w.client.Healthy) :
    w.model.Orderly ∧ ∀ k, ¬ w.client.Asked k → w.model.Known (· ≠ k) := by
  have hsound := sound_of_moves moves healthy
  refine ⟨hsound.orderly, fun k hk => hsound.ledger.knows.mono ?_⟩
  rintro _ hasked rfl
  exact hk hasked

/-- In every run, releases are exact: a release takes away all that tells the functions concerned,
wherever it is, and nothing else, and nothing is told to them afterwards. -/
theorem exact_of_moves (moves : Moves Step ⟨{}, []⟩ w) (healthy : w.client.Healthy) :
    w.client.Exact :=
  (sound_of_moves moves healthy).exact

/-- A shelf with an item on it. -/
def shelf : Model :=
  { objects := #[⟨.map (Dict.ofList [("item", .object 1)]), some {}⟩, ⟨.map Dict.empty, none⟩]
    holds := [.object 0] }

/-- The shelf when a function watches its item, with a client that only listens. -/
def watchedShelf : World History :=
  subscribe (fun n => World.record (.told n)) 0 0 (.object ⟨0, "item"⟩) ⟨shelf, []⟩

/-- The function is told of the item, and its subscription has the number 2. -/
theorem watchedShelf_client : watchedShelf.client =
    [.bound 0 2 0, .told (.value 0 (.object 1)), .asked 0 0] := by
  rfl

/-- When the subscription is released, the item is not watched any more, and the release is
exact. -/
theorem exact_of_moves_shelf : watchedShelf.model.watchersOf 1 = [⟨1, .mend 0⟩] ∧
    (watchedShelf.model.unbind 0 2).2.watchersOf 1 = [] ∧
    History.Exact (.released 0 2 watchedShelf.model :: watchedShelf.client) := by
  refine ⟨rfl, rfl, ?_⟩
  have halike : Model.Alike {} shelf := by
    have hcases (p : ObjectId → Prop) (h : p 0) (h' : p 1) (h'' : ∀ o, p (o + 2)) (o : ObjectId) :
        p o :=
      match o with
      | 0 => h
      | 1 => h'
      | o + 2 => h'' o
    exact ⟨Nat.zero_le _, rfl, hcases _ rfl rfl fun _ => rfl, hcases _ rfl rfl fun _ => rfl,
      hcases _ rfl rfl fun _ => rfl, hcases _ rfl rfl fun _ => rfl⟩
  have hwhole : shelf.Whole := by
    intro o q hq
    match o with
    | 0 =>
      obtain rfl := Value.object.inj (List.mem_singleton.1 hq)
      decide
    | 1 => cases hq
    | o + 2 => cases hq
  have hsubscribe : Step (fun n => World.record (.told n)) ⟨shelf, []⟩ watchedShelf := by
    refine .subscribe (.object ⟨0, "item"⟩) ?_ rfl fun h => by cases h
    rintro ⟨o, ho⟩
    cases ho
  have hmoves : Moves Step ⟨{}, []⟩ ((watchedShelf.record
      (.released 0 2 watchedShelf.model)).mapModel fun m => (m.unbind 0 2).2) :=
    .next (fun _ _ => .done _) (.other halike hwhole) (.next (fun _ _ => .done _) hsubscribe
      (.next (fun _ _ => .done _) .unbind (.done _)))
  refine exact_of_moves hmoves fun key fault => ?_
  show _ ∉ Event.released _ _ _ :: watchedShelf.client ∧
    _ ∉ Event.released _ _ _ :: watchedShelf.client
  rw [watchedShelf_client]
  constructor
  · simp
  · simp

end Release

end LiveScope
