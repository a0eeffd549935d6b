import LiveScope.Proofs.Deep.Tending
import LiveScope.Proofs.Release.Ledger

/-!
# What passes a deep watch by

A dispatch runs handlers and watchers of all kinds, of which some belong to a deep watch and the
others are foreign to it. As long as the clients write nothing and take nothing away from the deep
watch (`Listener.Passive`), a foreign handler or watcher leaves it as it is and tells its function
nothing (`World.Passive`), and so does a dispatch that has only such (`Bystanders.notify_foreign`).
-/

namespace LiveScope

/-- Whether a handler belongs to others than a deep watch and its function. -/
def Handler.Foreign (d : DeepId) (k : CallbackId) : Handler → Prop
  | report sink => sink.callback ≠ k
  | recompute _ formula => formula.sink.callback ≠ k
  | follow e => e ≠ d

/-- Whether a watcher belongs to others than a deep watch and its function. -/
def Watch.Foreign (d : DeepId) (k : CallbackId) : Watch → Prop
  | report callback => callback ≠ k
  | mend e => e ≠ d

namespace Model

variable {m : Model} {d : DeepId} {k : CallbackId} {o : ObjectId}

/-- A connection that does not move the deep watch is foreign, if nothing else tells its
function. -/
theorem Sole.handler_foreign (h : m.Sole d k) {c : Connection} (hc : c ∈ m.connectionsOf o)
    (hnot : c.handler.follows d = false) : c.handler.Foreign d k := by
  have hne : c.handler ≠ .follow d := by
    intro heq
    rw [heq] at hnot
    exact Bool.false_ne_true (hnot.symm.trans (beq_self_eq_true d))
  have hhandlers := h.handlers o c hc
  cases hh : c.handler with
  | report sink =>
    rw [hh] at hhandlers hne
    exact fun heq => hne (hhandlers (congrArg some heq))
  | recompute field formula =>
    rw [hh] at hhandlers hne
    exact fun heq => hne (hhandlers (congrArg some heq))
  | follow e => exact fun heq => hne (hh.trans (congrArg Handler.follow heq))

/-- A watcher that does not mend the deep watch is foreign, if nothing else tells its function. -/
theorem Sole.watch_foreign (h : m.Sole d k) {x : Watcher} (hx : x ∈ m.watchersOf o)
    (hne : x.watch ≠ .mend d) : x.watch.Foreign d k := by
  have hwatchers := h.watchers o x hx
  cases hw : x.watch with
  | report callback =>
    rw [hw] at hwatchers hne
    exact fun heq => hne (hwatchers (congrArg some heq))
  | mend e => exact fun heq => hne (hw.trans (congrArg Watch.mend heq))

end Model

namespace World

variable {d : DeepId} {k : CallbackId}

/-- Whether a function is told nothing between two worlds. -/
def Unheard (k : CallbackId) (w w' : World History) : Prop :=
  ∃ new, w'.client = new ++ w.client ∧ ∀ n, .told n ∈ new → ¬ n.Tells k

/-- Whether a deep watch is left alone between two worlds, nothing is written, and its function is
told nothing. -/
structure Passive (d : DeepId) (k : CallbackId) (w w' : World History) : Prop where
  /-- The deep watch and the content are left alone. -/
  aside : Model.Aside d k w.model w'.model
  /-- The function is told nothing. -/
  unheard : Unheard k w w'

/-- Being told nothing goes on. -/
theorem Unheard.steady (k : CallbackId) : Steady (Unheard k) where
  refl _ := ⟨[], rfl, fun _ h => (List.not_mem_nil h).elim⟩
  trans := by
    rintro _ _ _ ⟨new, hnew, hsilent⟩ ⟨new', hnew', hsilent'⟩
    refine ⟨new' ++ new, by rw [hnew', hnew, List.append_assoc], fun n hn => ?_⟩
    rcases List.mem_append.1 hn with hn | hn
    · exact hsilent' n hn
    · exact hsilent n hn

/-- Being left alone goes on. -/
theorem Passive.steady (d : DeepId) (k : CallbackId) : Steady (Passive d k) where
  refl w := ⟨(Model.Aside.steady d k).refl w.model, (Unheard.steady k).refl w⟩
  trans h h' :=
    ⟨(Model.Aside.steady d k).trans h.aside h'.aside,
      (Unheard.steady k).trans h.unheard h'.unheard⟩

/-- A change of the model tells nothing. -/
theorem Passive.of_aside {w : World History} {m : Model} (h : Model.Aside d k w.model m) :
    Passive d k w { w with model := m } :=
  ⟨h, (Unheard.steady k).refl w⟩

end World

/-- Whether a client, when it is told something, leaves alone a deep watch that is tended, and
writes nothing. -/
def Listener.Passive (d : DeepId) (r : ObjectId) (p : String) (k : CallbackId)
    (listen : Listener History) : Prop :=
  ∀ n u, u.model.Tended d r p k → World.Passive d k (u.record (.told n)) (listen n u)

namespace Bystanders

variable (d : DeepId) (r : ObjectId) (p : String) (k : CallbackId) (v : Value)

/-- Whether a tended deep watch is left alone between two worlds, if the value told of exists. -/
def Spares (w w' : World History) : Prop :=
  w.model.Tended d r p k → (∀ q, v = .object q → q < w.model.objects.size) →
    World.Passive d k w w'

variable {d r p k v} {listen : Listener History} {w : World History}

/-- A deep watch that is left alone stays tended, and what exists goes on to exist. -/
theorem Spares.steady : Steady (Spares d r p k v) where
  refl w _ _ := (World.Passive.steady d k).refl w
  trans h h' htended hknown := by
    have hfirst := h htended hknown
    refine (World.Passive.steady d k).trans hfirst (h' (htended.aside hfirst.aside) ?_)
    exact fun q hq => Nat.lt_of_lt_of_le (hknown q hq) hfirst.aside.size

/-- Holding other things. -/
theorem Spares.loose : World.Loose (Spares d r p k v) := fun w holds _ _ =>
  .of_aside (Model.aside_holds d k w.model holds)

/-- Moving and mending other deep watches. -/
theorem spares_of_reshaped {m : Model} {e : DeepId} (he : e ≠ d)
    (hr : w.model.Whole → (∀ q, v = .object q → q < w.model.objects.size) →
      Model.Reshaped e w.model m)
    (hsame : ∀ c, c ≠ e → Model.SameDeep c w.model m) :
    Spares d r p k v w { w with model := m } := fun htended hknown =>
  .of_aside ((hr htended.whole hknown).aside htended.toNoded he hsame)

/-- A value is told to the function that it is for. -/
theorem not_tells_notice {sink : Sink} (hsink : sink.callback ≠ k) (v : Value) :
    ¬ (sink.notice v).Tells k := by
  obtain ⟨callback, member⟩ := sink
  cases member with
  | none => exact hsink
  | some name => exact hsink

/-- Other deep watches tell other functions. -/
theorem callback_ne {e : DeepId} {deep : DeepWatch} (htended : w.model.Tended d r p k)
    (he : e ≠ d) (hdeep : w.model.deep? e = some deep) : deep.callback ≠ k :=
  fun heq => he (htended.sole.deeps e deep hdeep heq)

section Listening

variable (hlisten : listen.Passive d r p k)

include hlisten

/-- To tell something to others. -/
theorem tell_foreign {n : Notice} (hn : ¬ n.Tells k) (w : World History) :
    Spares d r p k v w (listen n w) := by
  intro htended _
  have hrecord : World.Passive d k w (w.record (.told n)) := by
    refine ⟨(Model.Aside.steady d k).refl w.model, [.told n], rfl, fun n' hn' => ?_⟩
    obtain rfl := Event.told.inj (List.mem_singleton.1 hn')
    exact hn
  exact (World.Passive.steady d k).trans hrecord (hlisten n w htended)

/-- To tell something to others while objects are held. -/
theorem tell_holding (hs : List Hold) {n : Notice} (hn : ¬ n.Tells k) (w : World History) :
    Spares d r p k v w (w.holding hs (listen n)) :=
  Spares.loose.holding Spares.steady (tell_foreign hlisten hn) hs w

/-- A foreign handler. -/
theorem run_foreign {h : Handler} (hh : h.Foreign d k) (w : World History) :
    Spares d r p k v w (h.run listen v w) := by
  cases h with
  | report sink => exact tell_foreign hlisten (not_tells_notice hh v) w
  | recompute field f =>
    unfold Handler.run Formula.update
    dsimp only
    split
    · split
      · exact tell_holding hlisten _ (not_tells_notice hh _) w
      · exact tell_foreign hlisten id w
    · exact Spares.steady.refl w
  | follow e =>
    unfold Handler.run
    dsimp only
    split
    · exact Spares.steady.refl w
    · -- Moving another deep watch takes none of the nodes, and tells another function.
      rename_i deep hdeep
      intro htended
      have hother := callback_ne htended hh hdeep
      have hmoved : Spares d r p k v w { w with model := (Model.retarget e v w.model).2 } :=
        spares_of_reshaped hh Model.reshaped_retarget
          fun c hc => Model.sameDeep_retarget hc v w.model
      refine Spares.steady.trans (Spares.steady.trans hmoved ?_)
        (tell_foreign hlisten (n := .value _ _) hother _) htended
      split
      · exact Spares.steady.refl _
      · exact tell_foreign hlisten id _

/-- A foreign watcher. -/
theorem watcher_foreign {x : Watcher} (hx : x.watch.Foreign d k) (o : ObjectId) (key : String)
    (w : World History) : Spares d r p k v w (x.run listen o key v w) := by
  unfold Watcher.run
  cases hw : x.watch with
  | report callback =>
    rw [hw] at hx
    exact tell_foreign hlisten (n := .change _ _ _ _) hx w
  | mend e =>
    rw [hw] at hx
    dsimp only
    split
    · exact Spares.steady.refl w
    · -- Mending another deep watch takes none of the nodes, and tells another function.
      rename_i deep hdeep
      intro htended
      have hother := callback_ne htended hx hdeep
      have hmended : Spares d r p k v w
          { w with model := (Model.mend e o x.seq key v w.model).2 } :=
        spares_of_reshaped hx Model.reshaped_mend
          fun c hc => Model.sameDeep_mend hc o x.seq key v w.model
      have htell (u : World History) : Spares d r p k v u (deep.tell listen u) := by
        unfold DeepWatch.tell
        split
        · exact tell_holding hlisten _ (n := .value _ _) hother u
        · exact Spares.steady.refl u
      refine Spares.steady.trans (Spares.steady.trans hmended ?_) (htell _) htended
      dsimp only
      split
      · exact Spares.steady.refl _
      · exact tell_foreign hlisten id _

/-- The turns of foreign handlers. -/
theorem handlers_foreign {cs : List Connection} (h : ∀ c ∈ cs, c.handler.Foreign d k)
    (o : ObjectId) (w : World History) :
    Spares d r p k v w (cs.foldl (World.handlerTurn listen o v) w) := by
  refine Spares.steady.foldl cs (fun c hc u => ?_) w
  unfold World.handlerTurn
  refine Spares.steady.trans ?_ (Spares.loose.releaseAll Spares.steady _ _)
  split
  · exact run_foreign hlisten (h c hc) u
  · exact Spares.steady.refl u

/-- The turns of foreign watchers. -/
theorem watchers_foreign {xs : List Watcher} (h : ∀ x ∈ xs, x.watch.Foreign d k) (o : ObjectId)
    (key : String) (w : World History) :
    Spares d r p k v w (xs.foldl (World.watcherTurn listen o key v) w) :=
  Spares.steady.foldl xs (fun x hx u => World.watcherTurn_within Spares.steady fun _ =>
    watcher_foreign hlisten (h x hx) o key u) w

/-- A dispatch with foreign handlers and watchers only. -/
theorem notify_foreign {o : ObjectId} {key : String}
    (hhandlers : ∀ c ∈ w.model.handlersOf o key, c.handler.Foreign d k)
    (hwatchers : ∀ x ∈ w.model.watchersOf o, x.watch.Foreign d k) :
    Spares d r p k v w (w.notify listen o key v) := by
  rw [World.notify_eq]
  split
  · exact Spares.steady.trans (Spares.loose w _) (Spares.steady.trans
      (handlers_foreign hlisten hhandlers o _) (watchers_foreign hlisten hwatchers o key _))
  · exact Spares.steady.refl w

end Listening

end Bystanders

end LiveScope
