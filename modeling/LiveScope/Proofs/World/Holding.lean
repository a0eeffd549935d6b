import LiveScope.Proofs.World.Reentrance

/-!
# Objects that stay alive during a dispatch

Whatever is done while something is held gives up afterwards what was held for it, and no more. So
if the client gives up nothing that it holds, an object that it holds at the beginning of a dispatch
is held at every turn (`World.staysAlive_of_held`). Holds are counted, for the dispatch may hold the
same object once more and give up that hold.
-/

namespace LiveScope

variable {γ : Type}

namespace Model

/-- Keeping up a tree neither holds anything nor gives anything up. -/
theorem watches_holds : Watches fun m m' : Model => m'.holds = m.holds where
  steady := ⟨fun _ => rfl, fun h h' => h'.trans h⟩
  ensureBinding _ _ := rfl
  watch _ _ _ := rfl
  unwatch _ _ _ := rfl

/-- An object that is held is alive. -/
theorem isAlive_of_held {m : Model} {o : ObjectId} (hheld : .object o ∈ m.holds)
    (hexists : o < m.objects.size) : m.isAlive o = true := by
  have hmem : o ∈ m.heldObjects := List.mem_flatMap.2 ⟨.object o, hheld, List.mem_cons_self⟩
  have hkept : ∀ q ∈ [o], q ∈ m.referred [o] := by
    intro q hq
    obtain rfl := List.mem_singleton.1 hq
    exact List.mem_append_left _ hmem
  have hliving : o ∈ m.living := by
    refine subset_living hkept (fun q hq => ?_) o List.mem_cons_self
    obtain rfl := List.mem_singleton.1 hq
    exact hexists
  exact List.contains_iff_mem.2 hliving

/-- Several things are held one after another. -/
theorem holdAll_append (m : Model) (hs hs' : List Hold) :
    m.holdAll (hs ++ hs') = (m.holdAll hs').holdAll hs := by
  unfold holdAll
  rw [List.append_assoc]

/-- What is given up is held no less often than before by more than it is given up. -/
theorem count_releaseAll (h : Hold) (hs : List Hold) (m : Model) :
    m.holds.count h ≤ (m.releaseAll hs).holds.count h + hs.count h := by
  induction hs generalizing m with
  | nil => exact Nat.le_refl _
  | cons x hs ih =>
    have hrest := ih (m.release x)
    have hone : (m.release x).holds.count h = m.holds.count h - if x == h then 1 else 0 :=
      List.count_erase
    have hcons : (x :: hs).count h = hs.count h + if x == h then 1 else 0 := List.count_cons
    have hfold : m.releaseAll (x :: hs) = (m.release x).releaseAll hs := rfl
    rw [hfold, hcons]
    omega

end Model

namespace World

variable {r o : ObjectId} {key : String} {v : Value} {h : Hold} {listen : Listener γ}
  {w w' : World γ}

/-- Whether an object is alive at every turn of a watcher in a dispatch, and after the last. -/
def StaysAlive (r : ObjectId) (listen : Listener γ) (o : ObjectId) (key : String) (v : Value)
    (w : World γ) : Prop :=
  let cs := w.model.handlersOf o key
  let u := cs.foldl (handlerTurn listen o v)
    (w.mapModel (·.holdAll (cs.flatMap (·.handler.holds))))
  ∀ turns, turns <+: w.model.watchersOf o →
    (turns.foldl (watcherTurn listen o key v) u).model.isAlive r = true

/-- Whether something is held at least as often afterwards, and no objects are gone. -/
structure Keeps (h : Hold) (w w' : World γ) : Prop where
  /-- No object is lost. -/
  size : w.model.objects.size ≤ w'.model.objects.size
  /-- It is held as often at least. -/
  count : w.model.holds.count h ≤ w'.model.holds.count h

/-- Any number of changes that keep something keep it. -/
theorem Keeps.steady (h : Hold) : Steady (Keeps h : World γ → World γ → Prop) where
  refl _ := ⟨Nat.le_refl _, Nat.le_refl _⟩
  trans hk hk' := ⟨Nat.le_trans hk.size hk'.size, Nat.le_trans hk.count hk'.count⟩

/-- What only rewatches and holds what was held. -/
theorem Keeps.of_rewatches {m : Model} (hr : w.model.Rewatches m)
    (hholds : m.holds = w.model.holds) : Keeps h w { w with model := m } :=
  ⟨Nat.le_of_eq hr.size.symm, Nat.le_of_eq (congrArg _ hholds.symm)⟩

/-- What was held for something is given up after it. -/
theorem Keeps.releaseAll {hs : List Hold} (hk : Keeps h (w.mapModel (·.holdAll hs)) w') :
    Keeps h w (w'.mapModel (·.releaseAll hs)) where
  size := by
    have hsize : (w'.model.releaseAll hs).objects.size = w'.model.objects.size :=
      (Model.rewatches_releaseAll w'.model hs).size
    exact Nat.le_trans hk.size (Nat.le_of_eq hsize.symm)
  count := by
    have hheld : (w.model.holdAll hs).holds.count h = hs.count h + w.model.holds.count h :=
      List.count_append
    have hkept : (w.model.holdAll hs).holds.count h ≤ w'.model.holds.count h := hk.count
    have hgiven := Model.count_releaseAll h hs w'.model
    show w.model.holds.count h ≤ (w'.model.releaseAll hs).holds.count h
    omega

/-- What is held and kept is held afterwards. -/
theorem Keeps.mem (hk : Keeps h w w') (hheld : h ∈ w.model.holds) : h ∈ w'.model.holds :=
  List.count_pos_iff.1 (Nat.lt_of_lt_of_le (List.count_pos_iff.2 hheld) hk.count)

section Listening

variable (hlisten : ∀ n u, Keeps h u (listen n u))

include hlisten

/-- To tell something while objects are held. -/
theorem holding_keeps (hs : List Hold) (n : Notice) (w : World γ) :
    Keeps h w (w.holding hs (listen n)) :=
  Keeps.releaseAll (hlisten n _)

/-- A handler. -/
theorem handler_keeps (c : Handler) (w : World γ) : Keeps h w (c.run listen v w) :=
  handler_tells (Keeps.steady h) (holding_keeps hlisten) hlisten fun d _ =>
    .of_rewatches (Model.rewatches_retarget d v w.model)
      (Model.watches_holds.retarget (fun _ _ => rfl) v w.model)

/-- A watcher. -/
theorem watcher_keeps (x : Watcher) (w : World γ) : Keeps h w (x.run listen o key v w) :=
  watcher_tells (Keeps.steady h) (holding_keeps hlisten) hlisten fun d _ =>
    .of_rewatches (Model.rewatches_mend d o x.seq key v w.model)
      (Model.watches_holds.mend (fun _ _ _ _ => rfl) o x.seq key v w.model)

/-- The turns of handlers give up what was held for them before the first. -/
theorem handlers_keep {cs : List Connection} {u : World γ}
    (hu : Keeps h (w.mapModel (·.holdAll (cs.flatMap (·.handler.holds)))) u) :
    Keeps h w (cs.foldl (handlerTurn listen o v) u) := by
  induction cs generalizing u with
  | nil => exact hu
  | cons c cs ih =>
    let w' := w.mapModel (·.holdAll (cs.flatMap (·.handler.holds)))
    have hheld : w.mapModel (·.holdAll ((c :: cs).flatMap (·.handler.holds))) =
        w'.mapModel (·.holdAll c.handler.holds) :=
      congrArg (World.mk · w.client) (w.model.holdAll_append _ _)
    have hrun : Keeps h u (if u.model.isConnected o ⟨c.key, c.seq⟩ then
        c.handler.run listen v u else u) := by
      split
      · exact handler_keeps hlisten c.handler u
      · exact (Keeps.steady h).refl u
    -- The first turn gives up what was held for its handler, and the others still have theirs.
    rw [hheld] at hu
    rw [List.foldl_cons]
    exact ih (Keeps.releaseAll ((Keeps.steady h).trans hu hrun))

/-- The turns of watchers. -/
theorem watchers_keep (xs : List Watcher) (w : World γ) :
    Keeps h w (xs.foldl (watcherTurn listen o key v) w) :=
  (Keeps.steady h).foldl xs (fun x _ u => watcherTurn_within (Keeps.steady h) fun _ =>
    watcher_keeps hlisten x u) w

/-- A dispatch. -/
theorem notify_keeps (o : ObjectId) (key : String) (v : Value) (w : World γ) :
    Keeps h w (w.notify listen o key v) := by
  rw [notify_eq]
  split
  · exact (Keeps.steady h).trans (handlers_keep hlisten ((Keeps.steady h).refl _))
      (watchers_keep hlisten _ _)
  · exact (Keeps.steady h).refl w

/-- Several dispatches. -/
theorem announce_keeps (o : ObjectId) (announcements : List (String × Value)) (w : World γ) :
    Keeps h w (Mutation.announce listen o announcements w) :=
  (Keeps.steady h).foldl announcements (fun a _ u => notify_keeps hlisten o a.1 a.2 u) w

end Listening

/-- An object that is held stays alive during a dispatch, if the client gives up nothing. -/
theorem staysAlive_of_held (hlisten : ∀ n u, Keeps (.object r) u (listen n u))
    (hheld : .object r ∈ w.model.holds) (hexists : r < w.model.objects.size) (o : ObjectId)
    (key : String) (v : Value) : StaysAlive r listen o key v w := by
  unfold StaysAlive
  dsimp only
  intro turns _
  have hhandlers : Keeps (.object r) w ((w.model.handlersOf o key).foldl (handlerTurn listen o v)
      (w.mapModel (·.holdAll ((w.model.handlersOf o key).flatMap (·.handler.holds))))) :=
    handlers_keep hlisten ((Keeps.steady _).refl _)
  generalize (w.model.handlersOf o key).foldl (handlerTurn listen o v) _ = u at hhandlers ⊢
  have hturns : Keeps (.object r) u (turns.foldl (watcherTurn listen o key v) u) :=
    watchers_keep hlisten turns u
  have hkeeps := (Keeps.steady _).trans hhandlers hturns
  exact Model.isAlive_of_held (hkeeps.mem hheld) (Nat.lt_of_lt_of_le hexists hkeeps.size)

end World

end LiveScope
