import LiveScope.Proofs.Deep.Bystanders
import LiveScope.Proofs.Deep.Patching
import LiveScope.Proofs.World.Holding

/-!
# Deep watches mirror their property

A deep watch mirrors its property if the root of its tree is the value of the property and below
every node there is what is in its object (`Model.Mirroring`). A write can leave it behind in two
ways. If the property is written, the handler of the deep watch moves it (`Mirroring.notify_own`).
If another object is, or another key, the nodes of that object are behind, and each is mended by its
watcher (`Mirroring.notify_amid`). Whether the function of the deep watch is told of the write is
settled with that: it is told by the handler in the first case, and by the watchers of the nodes, if
there are any, in the second.
-/

namespace LiveScope

namespace Model

variable {m m' : Model} {d : DeepId} {r o : ObjectId} {p key : String} {k : CallbackId}
  {v V : Value} {before : List (String × ObjectId)} {pending : List Nat}

/-- Whether `V` is the value of a property, is not too deep and is the root of the tree of a deep
watch. -/
structure Rooted (m : Model) (d : DeepId) (r : ObjectId) (p : String) (V : Value) : Prop where
  /-- It is the value of the property. -/
  value : m.get r p = V
  /-- It is not too deep. -/
  within : ∀ q, V = .object q → m.Within maxDepth q
  /-- It is what the tree begins with, if it is an object. -/
  root : m.watchedRoot d = V.object?

/-- Whether a deep watch that is connected to its property mirrors the value. -/
structure Attached (m : Model) (d : DeepId) (r : ObjectId) (p : String) (k : CallbackId)
    (V : Value) : Prop extends m.Rooted d r p V, m.Posted d r p k where
  /-- The tree mirrors what is in its objects. -/
  mirrors : ∀ t ∈ m.tree? d, t.Mirrors m

/-- Whether a tended deep watch mirrors the value of its property. -/
structure Mirroring (m : Model) (d : DeepId) (r : ObjectId) (p : String) (k : CallbackId)
    (V : Value) : Prop extends m.Rooted d r p V where
  /-- The deep watch is tended. -/
  tended : m.Tended d r p k
  /-- Its tree mirrors what is in its objects. -/
  mirrors : ∀ t ∈ m.tree? d, t.Mirrors m

/-- Whether a tended deep watch has the value of its property at its root, and is behind at the
nodes for `o` with a pending watcher. -/
structure Amid (m : Model) (d : DeepId) (r : ObjectId) (p : String) (k : CallbackId)
    (V : Value) (o : ObjectId) (key : String) (v : Value) (before : List (String × ObjectId))
    (pending : List Nat) : Prop extends m.Rooted d r p V, m.Lagging d r p k o key v before pending

/-- The value of a property of a tended deep watch exists. -/
theorem Rooted.lt_size (h : m.Rooted d r p V) (hwhole : m.Whole) {q : ObjectId}
    (hq : V = .object q) : q < m.objects.size :=
  hwhole r q (Store.get_mem_values (h.value.trans hq))

/-- If a deep watch has a tree, the value is the object at its root. -/
theorem Rooted.eq_object (h : m.Rooted d r p V) {t : WatchTree} (ht : m.tree? d = some t) :
    V = .object t.object :=
  Value.object?_eq_some_iff.1 (h.root.symm.trans (congrArg (Option.map _) ht))

/-- What others do leaves the value and the root. -/
theorem Rooted.aside (h : m.Rooted d r p V) (hposted : m.Posted d r p k) (ha : Aside d k m m') :
    m'.Rooted d r p V where
  value := (congrArg (·.get p) (ha.store r hposted.lt_size)).trans h.value
  within q hq :=
    (h.within q hq).of_grown hposted.whole ha.store (h.lt_size hposted.whole hq)
  root := by
    unfold watchedRoot
    rw [ha.tree?]
    exact h.root

/-- To mend a tree leaves the value and the root. -/
theorem Rooted.rewatches (h : m.Rooted d r p V) (hwhole : m.Whole) (hr : m.Rewatches m')
    (hroot : SameRoot d m m') : m'.Rooted d r p V where
  value := (congrArg (·.get p) (hr.store r)).trans h.value
  within q hq :=
    (h.within q hq).of_grown hwhole (fun q _ => hr.store q) (h.lt_size hwhole hq)
  root := hroot.trans h.root

/-- What others do leaves what is in the objects of the tree. -/
theorem Noded.mirrors_aside (h : m.Noded d) (ha : Aside d k m m')
    (hmirrors : ∀ t ∈ m.tree? d, t.Mirrors m) : ∀ t ∈ m'.tree? d, t.Mirrors m' := by
  intro t ht
  rw [ha.tree?] at ht
  refine (hmirrors t ht).imp fun q n labels hmem heq => ?_
  have hq : q < m.objects.size := h.lt_size (watched_of_tree? ht ▸ hmem)
  rw [heq, members_congr (ha.store q hq)]

/-- A deep watch that mirrors is attached. -/
theorem Mirroring.attached (h : m.Mirroring d r p k V) : m.Attached d r p k V :=
  { h.toRooted, h.tended.posted with mirrors := h.mirrors }

/-- What others do leaves a deep watch attached. -/
theorem Attached.aside (h : m.Attached d r p k V) (ha : Aside d k m m') :
    m'.Attached d r p k V :=
  { h.toRooted.aside h.toPosted ha, h.toPosted.aside ha with
    mirrors := h.toNoded.mirrors_aside ha h.mirrors }

/-- What others do leaves a deep watch mirroring. -/
theorem Mirroring.aside (h : m.Mirroring d r p k V) (ha : Aside d k m m') :
    m'.Mirroring d r p k V where
  toRooted := h.toRooted.aside h.tended.posted ha
  tended := h.tended.aside ha
  mirrors := h.tended.toNoded.mirrors_aside ha h.mirrors

/-- What others do leaves a deep watch behind where it is. -/
theorem Amid.aside (h : m.Amid d r p k V o key v before pending) (ha : Aside d k m m') :
    m'.Amid d r p k V o key v before pending :=
  { h.toRooted.aside h.tended.posted ha, h.toLagging.aside ha with }

/-- When no watcher is pending any more the deep watch mirrors. -/
theorem Amid.mirroring (h : m.Amid d r p k V o key v before []) : m.Mirroring d r p k V :=
  { h.toRooted with
    tended := h.tended
    mirrors := h.toLagging.mirrors }

/-- A change of one object leaves the nodes for it behind, and no others. -/
theorem Mirroring.amid (h : m.Mirroring d r p k V) (htended : m'.Tended d r p k)
    (hrooted : m'.Rooted d r p V) (htree : m'.tree? d = m.tree? d)
    (hstore : ∀ q, q ≠ o → m'.store q = m.store q) (ho : o < m'.objects.size)
    (hv : ∀ q, v = .object q → q < m'.objects.size)
    (hamends : (m'.store o).amend key v (m.members o) = m'.members o) :
    m'.Amid d r p k V o key v (m.members o) ((m'.menders d o).map (·.seq)) := by
  refine { hrooted with
    tended := htended
    exist := ho
    known := hv
    ascending := m.ascending_members o
    amends := hamends
    fits := fun t ht => ?_
    nodes := fun t ht => ?_
    distinct := (htended.numbered o).ascending.imp Nat.ne_of_lt
    numbered := (htended.numbered o).bounded }
  · rw [htree] at ht
    have hV : V = .object t.object := h.eq_object ht
    exact (h.mirrors t ht).fits hstore (h.within _ hV) (hrooted.within _ hV)
  · have hnode {q : ObjectId} {n : Nat} (hmem : (q, n) ∈ t.watchers) :
        n ∈ (m'.menders d q).map (·.seq) :=
      mem_menders_map.2 ((htended.nodes q n).1 (watched_of_tree? ht ▸ hmem))
    rw [htree] at ht
    refine (h.mirrors t ht).imp fun q n labels hmem heq => ?_
    by_cases hq : q = o
    · -- The node lags behind: it has the members that the object had before.
      subst hq
      rw [if_pos ⟨rfl, hnode hmem⟩]
      exact heq
    · rw [if_neg fun hqn => hq hqn.1, heq, members_congr (hstore q hq)]

end Model

namespace World

variable {k : CallbackId} {V : Value} {told told' : Prop} {w w' w'' : World History}

/-- Whether all that a function is told between two worlds is the value `V`, and it is told
something exactly if `told`. -/
def Hears (k : CallbackId) (V : Value) (told : Prop) (w w' : World History) : Prop :=
  ∃ new, w'.client = new ++ w.client ∧ (∀ n, .told n ∈ new → n.Tells k → n = .value k V) ∧
    ((∃ n, .told n ∈ new ∧ n.Tells k) ↔ told)

/-- A function that is told nothing. -/
theorem Unheard.hears (h : Unheard k w w') (V : Value) : Hears k V False w w' := by
  obtain ⟨new, hnew, hsilent⟩ := h
  refine ⟨new, hnew, fun n hn htells => absurd htells (hsilent n hn), iff_of_false ?_ id⟩
  rintro ⟨n, hn, htells⟩
  exact hsilent n hn htells

/-- A function hears in a longer time what it hears in either part. -/
theorem Hears.trans (h : Hears k V told w w') (h' : Hears k V told' w' w'') :
    Hears k V (told ∨ told') w w'' := by
  obtain ⟨new, hnew, hvalue, htold⟩ := h
  obtain ⟨new', hnew', hvalue', htold'⟩ := h'
  refine ⟨new' ++ new, by rw [hnew', hnew, List.append_assoc], fun n hn => ?_, ?_⟩
  · rcases List.mem_append.1 hn with hn | hn
    · exact hvalue' n hn
    · exact hvalue n hn
  · rw [← htold, ← htold']
    constructor
    · rintro ⟨n, hn, htells⟩
      rcases List.mem_append.1 hn with hn | hn
      · exact .inr ⟨n, hn, htells⟩
      · exact .inl ⟨n, hn, htells⟩
    · rintro (⟨n, hn, htells⟩ | ⟨n, hn, htells⟩)
      · exact ⟨n, List.mem_append_right new' hn, htells⟩
      · exact ⟨n, List.mem_append_left new hn, htells⟩

/-- Whether something is told can be put in other words. -/
theorem Hears.congr (h : Hears k V told w w') (hiff : told ↔ told') : Hears k V told' w w' := by
  rw [← propext hiff]
  exact h

end World

namespace Mirroring

variable {d : DeepId} {r o : ObjectId} {p key : String} {k : CallbackId} {v V : Value}
  {before : List (String × ObjectId)} {pending : List Nat} {listen : Listener History}
  {w w' : World History}

/-- A deep watch is alive as long as the object is that it is connected to. -/
theorem isDeepAlive {m : Model} (h : m.followers d r ≠ []) (halive : m.isAlive r = true) :
    m.isDeepAlive d = true := by
  obtain ⟨c, hc⟩ := List.exists_mem_of_ne_nil _ h
  obtain ⟨hconnected, hfollows⟩ := List.mem_filter.1 hc
  have hdeep : c.handler.deep? = some d := by
    rw [Handler.eq_follow hfollows]
    rfl
  unfold Model.connectionsOf at hconnected
  unfold Model.isDeepAlive
  refine Bool.or_eq_true_iff.2 (.inr (List.any_eq_true.2 ⟨r, List.contains_iff_mem.1 halive, ?_⟩))
  cases hb : m.binding? r with
  | none =>
    rw [hb] at hconnected
    cases hconnected
  | some b =>
    rw [hb] at hconnected
    refine List.contains_iff_mem.2 (List.mem_append_left _ ?_)
    exact List.mem_filterMap.2 ⟨c, hconnected, hdeep⟩

/-- The handlers of other properties are foreign. -/
theorem handlers_apart (h : w.model.Tended d r p k) (hother : o = r → key ≠ p) :
    ∀ c ∈ w.model.handlersOf o key, c.handler.Foreign d k := fun c hc =>
  h.sole.handler_foreign (Model.mem_handlersOf.1 hc).1 (Following.not_follows h.placed hother c hc)

/-- The watchers of objects that are not among the nodes are foreign. -/
theorem watchers_apart (h : w.model.Tended d r p k) (hapart : w.model.menders d o = []) :
    ∀ x ∈ w.model.watchersOf o, x.watch.Foreign d k := fun _ hx =>
  h.sole.watch_foreign hx fun hmend =>
    List.ne_nil_of_mem (Model.mem_menders.2 ⟨hx, hmend⟩) hapart

section Listening

variable (hlisten : listen.Passive d r p k)

include hlisten

/-- To tell the function of the deep watch a value. -/
theorem tell_own (htended : w.model.Tended d r p k) (V : Value) :
    Model.Aside d k w.model (listen (.value k V) w).model ∧
      World.Hears k V True w (listen (.value k V) w) := by
  obtain ⟨haside, hunheard⟩ := hlisten (.value k V) w htended
  have hrecord : World.Hears k V True w (w.record (.told (.value k V))) := by
    refine ⟨[.told (.value k V)], rfl, fun n hn _ => ?_, iff_of_true ⟨_, List.mem_cons_self, rfl⟩
      trivial⟩
    exact Event.told.inj (List.mem_singleton.1 hn)
  exact ⟨haside, (hrecord.trans (hunheard.hears V)).congr (or_iff_left id)⟩

/-- To tell the function of the deep watch a value while objects are held. -/
theorem tell_holding (htended : w.model.Tended d r p k) (hs : List Hold) (V : Value) :
    Model.Aside d k w.model (w.holding hs (listen (.value k V))).model ∧
      World.Hears k V True w (w.holding hs (listen (.value k V))) := by
  have hhold := Model.aside_holds d k w.model (hs ++ w.model.holds)
  obtain ⟨haside, hheard⟩ := tell_own (w := w.mapModel (·.holdAll hs)) hlisten
    (htended.aside hhold) V
  have hI := Model.Aside.steady d k
  exact ⟨hI.trans (hI.trans hhold haside) (Model.aside_releaseAll d k _ hs), hheard⟩

/-! ## Dispatches of other keys and objects -/

/-- The turn of a watcher that mends the deep watch. If the watcher is still there the function is
told the value of the property. -/
theorem turn_own {n : Nat} (h : w.model.Amid d r p k V o key v before (n :: pending))
    (halive : w.model.isAlive r = true)
    (halive' : (World.watcherTurn listen o key v w ⟨n, .mend d⟩).model.isAlive r = true) :
    (World.watcherTurn listen o key v w ⟨n, .mend d⟩).model.Amid d r p k V o key v before pending ∧
      w.model.Extends (World.watcherTurn listen o key v w ⟨n, .mend d⟩).model ∧
      ∃ told, World.Hears k V told w (World.watcherTurn listen o key v w ⟨n, .mend d⟩) ∧
        (w.model.isWatching o n = true → told) := by
  unfold World.watcherTurn at halive' ⊢
  split
  · rename_i hwatching
    rw [if_pos hwatching] at halive'
    obtain ⟨tree, hdeep⟩ := h.tended.deep
    obtain ⟨m', hmend, hlagging⟩ := h.toLagging.mend (isDeepAlive h.tended.live halive)
    have hrewatches : w.model.Rewatches m' := (Model.rewatches_mend d o n key v).of_run hmend
    have hroot : Model.SameRoot d w.model m' := (Model.sameRoot_mend d d o n key v).of_run hmend
    have hamid : m'.Amid d r p k V o key v before pending :=
      { h.toRooted.rewatches h.tended.whole hrewatches hroot, hlagging with }
    have hrun : Watcher.run listen o key v ⟨n, .mend d⟩ w =
        DeepWatch.tell listen ⟨r, p, k, tree⟩ { w with model := m' } := by
      unfold Watcher.run
      dsimp only
      rw [hdeep, hmend]
    rw [hrun] at halive' ⊢
    unfold DeepWatch.tell at halive' ⊢
    dsimp only at halive' ⊢
    by_cases hlives : m'.isAlive r = true
    · rw [if_pos hlives, hamid.value]
      obtain ⟨haside, hheard⟩ := tell_holding (w := { w with model := m' }) hlisten hlagging.tended
        (.object r :: V.holds) V
      have hextends : w.model.Extends _ :=
        Model.Extends.steady.trans hrewatches.extends haside.toExtends
      exact ⟨hamid.aside haside, hextends, True, hheard, fun _ => trivial⟩
    · -- An owner that is not alive after the mending is not alive after the turn.
      rw [if_neg hlives] at halive'
      exact absurd halive' hlives
  · -- A watcher that is no longer registered is none of the nodes either.
    rename_i hgone
    have hn : (o, n) ∉ w.model.watched d := fun hmem =>
      hgone (List.any_eq_true.2 ⟨_, (h.tended.nodes o n).1 hmem, beq_self_eq_true n⟩)
    refine ⟨{ h.toRooted, h.toLagging.skip hn with }, Model.Extends.steady.refl _, False, ?_,
      fun hwatching => hgone hwatching⟩
    exact ((World.Unheard.steady k).refl w).hears V

/-- The turns of watchers. -/
theorem watchers_amid {xs : List Watcher}
    (hforeign : ∀ x ∈ xs, x.watch ≠ .mend d → x.watch.Foreign d k)
    (h : w.model.Amid d r p k V o key v before ((xs.filter (·.watch = .mend d)).map (·.seq)))
    (halive : ∀ turns, turns <+: xs →
      (turns.foldl (World.watcherTurn listen o key v) w).model.isAlive r = true) :
    (xs.foldl (World.watcherTurn listen o key v) w).model.Amid d r p k V o key v before [] ∧
      w.model.Extends (xs.foldl (World.watcherTurn listen o key v) w).model ∧
      ∃ told, World.Hears k V told w (xs.foldl (World.watcherTurn listen o key v) w) ∧
        (told → ∃ x ∈ xs, x.watch = .mend d) ∧
        ((∃ x ∈ xs, x.watch = .mend d) →
          (∀ x ∈ xs, x.watch = .mend d → x ∈ w.model.menders d o) → told) := by
  induction xs generalizing w with
  | nil =>
    refine ⟨h, Model.Extends.steady.refl _, False, ((World.Unheard.steady k).refl w).hears V,
      False.elim, ?_⟩
    rintro ⟨_, hx, _⟩
    cases hx
  | cons x xs ih =>
    have hforeign' : ∀ y ∈ xs, y.watch ≠ .mend d → y.watch.Foreign d k := fun y hy =>
      hforeign y (List.mem_cons_of_mem x hy)
    have halive₁ := halive [x] ⟨xs, rfl⟩
    have halive' : ∀ turns, turns <+: xs → (turns.foldl (World.watcherTurn listen o key v)
        (World.watcherTurn listen o key v w x)).model.isAlive r = true := fun turns hturns =>
      halive (x :: turns) ((List.prefix_cons_inj x).2 hturns)
    rw [List.foldl_cons]
    by_cases hx : x.watch = .mend d
    · -- The first of the watchers that mend the deep watch tells, whatever becomes of the others.
      obtain ⟨n, watch⟩ := x
      obtain rfl : watch = .mend d := hx
      rw [List.filter_cons_of_pos (by simp), List.map_cons] at h
      obtain ⟨hturn, hextends, told, hheard, htold⟩ :=
        turn_own hlisten h (halive [] List.nil_prefix) halive₁
      obtain ⟨hamid, hextends', told', hheard', _⟩ := ih hforeign' hturn halive'
      refine ⟨hamid, Model.Extends.steady.trans hextends hextends', _, hheard.trans hheard',
        fun _ => ⟨_, List.mem_cons_self, rfl⟩, ?_⟩
      intro _ hregistered
      have hmem := (Model.mem_menders.1 (hregistered _ List.mem_cons_self rfl)).1
      exact .inl (htold (List.any_eq_true.2 ⟨_, hmem, beq_self_eq_true n⟩))
    · rw [List.filter_cons_of_neg (by simpa using hx)] at h
      have hturn : Bystanders.Spares d r p k v w (World.watcherTurn listen o key v w x) :=
        World.watcherTurn_within Bystanders.Spares.steady fun _ =>
          Bystanders.watcher_foreign hlisten (hforeign x List.mem_cons_self hx) o key w
      obtain ⟨haside, hunheard⟩ := hturn h.tended h.known
      obtain ⟨hamid, hextends, told, hheard, honly, htold⟩ := ih hforeign' (h.aside haside) halive'
      have hheard' := ((hunheard.hears V).trans hheard).congr (or_iff_right id)
      refine ⟨hamid, Model.Extends.steady.trans haside.toExtends hextends, told, hheard',
        fun ht => ?_, ?_⟩
      · obtain ⟨y, hy, hyd⟩ := honly ht
        exact ⟨y, List.mem_cons_of_mem x hy, hyd⟩
      · rintro ⟨y, hy, hyd⟩ hregistered
        have hyxs := (List.mem_cons.1 hy).resolve_left fun heq => hx (heq ▸ hyd)
        refine htold ⟨y, hyxs, hyd⟩ fun z hz hzd => ?_
        rw [haside.menders]
        exact hregistered z (List.mem_cons_of_mem x hz) hzd

/-- A dispatch that the connection of the deep watch is not part of. Its function is told if the
object is one of the nodes. -/
theorem notify_amid
    (h : w.model.Amid d r p k V o key v before ((w.model.menders d o).map (·.seq)))
    (hother : o = r → key ≠ p) (halive : World.StaysAlive r listen o key v w) :
    (w.notify listen o key v).model.Mirroring d r p k V ∧
      w.model.Extends (w.notify listen o key v).model ∧
      World.Hears k V (w.model.menders d o ≠ []) w (w.notify listen o key v) := by
  have hwatchers : ∀ x ∈ w.model.watchersOf o, x.watch ≠ .mend d → x.watch.Foreign d k :=
    fun x hx => h.tended.sole.watch_foreign hx
  rw [World.notify_eq]
  split
  · unfold World.StaysAlive at halive
    dsimp only at halive
    generalize (w.model.handlersOf o key).flatMap (·.handler.holds) = hs at halive ⊢
    -- The handlers are all foreign, so that the watchers find the deep watch as it was.
    have hbefore : Bystanders.Spares d r p k v w ((w.model.handlersOf o key).foldl
        (World.handlerTurn listen o v) (w.mapModel (·.holdAll hs))) :=
      Bystanders.Spares.steady.trans (Bystanders.Spares.loose w _)
        (Bystanders.handlers_foreign hlisten (handlers_apart h.tended hother) o _)
    obtain ⟨haside, hunheard⟩ := hbefore h.tended h.known
    obtain ⟨hamid, hextends, told, hheard, honly, htold⟩ :=
      watchers_amid hlisten hwatchers (h.aside haside) halive
    have hheard' := (hunheard.hears V).trans hheard
    refine ⟨hamid.mirroring, Model.Extends.steady.trans haside.toExtends hextends,
      hheard'.congr ?_⟩
    rw [Model.menders_ne_nil, false_or]
    refine ⟨honly, fun hown => htold hown fun x hx hmend => ?_⟩
    rw [haside.menders]
    exact Model.mem_menders.2 ⟨hx, hmend⟩
  · rename_i hsilent
    rw [Model.menders_of_silent (h.tended.free o) hsilent] at h ⊢
    have hunheard := (World.Unheard.steady k).refl w
    refine ⟨h.mirroring, Model.Extends.steady.refl _, (hunheard.hears V).congr ?_⟩
    simp

/-- Announcements that the connection of the deep watch is not part of. The first brings the nodes
of the object up to date, and the others leave them so. If there are nodes at first, the function is
told. -/
theorem announce_amid {a : String × Value} {rest : List (String × Value)}
    (h : w.model.Amid d r p k V o a.1 a.2 before ((w.model.menders d o).map (·.seq)))
    (hknown : ∀ b ∈ rest, ∀ q, b.2 = .object q → q < w.model.objects.size)
    (hrest : ∀ b ∈ rest, (w.model.store o).amend b.1 b.2 (w.model.members o) = w.model.members o)
    (hother : ∀ b ∈ a :: rest, o = r → b.1 ≠ p)
    (halive : ∀ told b, told ++ [b] <+: a :: rest →
      World.StaysAlive r listen o b.1 b.2 (Mutation.announce listen o told w)) :
    (Mutation.announce listen o (a :: rest) w).model.Mirroring d r p k V ∧
      ∃ told, World.Hears k V told w (Mutation.announce listen o (a :: rest) w) ∧
        (w.model.menders d o ≠ [] → told) := by
  induction rest generalizing a w before with
  | nil =>
    obtain ⟨hmirroring, _, hheard⟩ := notify_amid hlisten h (hother a List.mem_cons_self)
      (halive [] a (List.prefix_refl _))
    exact ⟨hmirroring, _, hheard, id⟩
  | cons b rest ih =>
    obtain ⟨hmirroring, hextends, hheard⟩ := notify_amid hlisten h
      (hother a List.mem_cons_self) (halive [] a ⟨b :: rest, rfl⟩)
    let u := w.notify listen o a.1 a.2
    have hstore : u.model.store o = w.model.store o := hextends.store o h.exist
    have hmembers : u.model.members o = w.model.members o := Model.members_congr hstore
    have hknown' : ∀ c ∈ b :: rest, ∀ q, c.2 = .object q → q < u.model.objects.size :=
      fun c hc q hq => Nat.lt_of_lt_of_le (hknown c hc q hq) hextends.size
    have hrest' : ∀ c ∈ b :: rest,
        (u.model.store o).amend c.1 c.2 (u.model.members o) = u.model.members o := by
      rw [hstore, hmembers]
      exact hrest
    -- After the first dispatch nothing is behind, and the next announcement changes nothing: every
    -- node is behind by nothing.
    have hamid : u.model.Amid d r p k V o b.1 b.2 (u.model.members o)
        ((u.model.menders d o).map (·.seq)) :=
      hmirroring.amid hmirroring.tended hmirroring.toRooted rfl (fun _ _ => rfl)
        (Nat.lt_of_lt_of_le h.exist hextends.size) (hknown' b List.mem_cons_self)
        (hrest' b List.mem_cons_self)
    obtain ⟨hmirroring', told, hheard', _⟩ := ih hamid
      (fun c hc => hknown' c (List.mem_cons_of_mem b hc))
      (fun c hc => hrest' c (List.mem_cons_of_mem b hc))
      (fun c hc => hother c (List.mem_cons_of_mem a hc))
      fun told c hprefix => halive (a :: told) c ((List.prefix_cons_inj a).2 hprefix)
    exact ⟨hmirroring', _, hheard.trans hheard', .inl⟩

/-- Announcements of an object that is not among the nodes pass the deep watch by, whether the
object of its property stays alive or not. -/
theorem announce_apart {announcements : List (String × Value)} (h : w.model.Tended d r p k)
    (hapart : w.model.menders d o = [])
    (hknown : ∀ a ∈ announcements, ∀ q, a.2 = .object q → q < w.model.objects.size)
    (hother : ∀ a ∈ announcements, o = r → a.1 ≠ p) :
    World.Passive d k w (Mutation.announce listen o announcements w) := by
  induction announcements generalizing w with
  | nil => exact (World.Passive.steady d k).refl w
  | cons a rest ih =>
    have hfirst : World.Passive d k w (w.notify listen o a.1 a.2) :=
      Bystanders.notify_foreign hlisten (handlers_apart h (hother a List.mem_cons_self))
        (watchers_apart h hapart) h (hknown a List.mem_cons_self)
    refine (World.Passive.steady d k).trans hfirst (ih (h.aside hfirst.aside) ?_ ?_ ?_)
    · rw [hfirst.aside.menders, hapart]
    · intro b hb q hq
      exact Nat.lt_of_lt_of_le (hknown b (List.mem_cons_of_mem a hb) q hq) hfirst.aside.size
    · exact fun b hb => hother b (List.mem_cons_of_mem a hb)

/-! ## Dispatches of the property -/

/-- The turn of the handler of the deep watch. -/
theorem turn_follow {c : Connection} (hc : c ∈ w.model.followers d r)
    (h : w.model.Tended d r p k) (hvalue : w.model.get r p = V)
    (hwithin : ∀ q, V = .object q → w.model.Within maxDepth q)
    (hmirrors : ∀ t ∈ w.model.tree? d, t.Mirrors w.model) :
    (World.handlerTurn listen r V w c).model.Mirroring d r p k V ∧
      World.Hears k V True w (World.handlerTurn listen r V w c) := by
  obtain ⟨hconnected, hfollows⟩ := List.mem_filter.1 hc
  have hfollow := Handler.eq_follow hfollows
  have hV : ∀ q, V = .object q → q < w.model.objects.size ∧ w.model.Within maxDepth q :=
    fun q hq => ⟨h.whole r q (Store.get_mem_values (hvalue.trans hq)), hwithin q hq⟩
  obtain ⟨tree, hdeep⟩ := h.deep
  obtain ⟨m', hret, htended, hmirrors', hroot⟩ := h.retarget hV hmirrors
  have hrewatches : w.model.Rewatches m' := (Model.rewatches_retarget d V).of_run hret
  have hmirroring : m'.Mirroring d r p k V := by
    refine ⟨⟨?_, fun q hq => ?_, hroot⟩, htended, hmirrors'⟩
    · exact (congrArg (·.get p) (hrewatches.store r)).trans hvalue
    · exact (hwithin q hq).of_grown h.whole (fun q _ => hrewatches.store q) (hV q hq).1
  -- The handler moves the deep watch and tells its function; the value is not refused.
  have hrun : c.handler.run listen V w = listen (.value k V) { w with model := m' } := by
    rw [hfollow]
    unfold Handler.run
    dsimp only
    rw [hdeep, hret]
  unfold World.handlerTurn
  rw [if_pos (Model.isConnected_of_mem hconnected), hrun]
  obtain ⟨haside, hheard⟩ := tell_own (w := { w with model := m' }) hlisten htended V
  exact ⟨(hmirroring.aside haside).aside (Model.aside_releaseAll d k _ c.handler.holds), hheard⟩

/-- A dispatch of the property moves the deep watch, and its function is told the value. -/
theorem notify_own (h : w.model.Tended d r p k) (hvalue : w.model.get r p = V)
    (hwithin : ∀ q, V = .object q → w.model.Within maxDepth q)
    (hmirrors : ∀ t ∈ w.model.tree? d, t.Mirrors w.model) (hapart : w.model.menders d r = []) :
    (w.notify listen r p V).model.Mirroring d r p k V ∧
      World.Hears k V True w (w.notify listen r p V) := by
  have hwatchers := watchers_apart h hapart
  have hknown : ∀ q, V = .object q → q < w.model.objects.size := fun q hq =>
    h.whole r q (Store.get_mem_values (hvalue.trans hq))
  -- The handler of the deep watch stands between foreign ones.
  obtain ⟨c, hown⟩ := List.exists_mem_of_ne_nil _ h.live
  obtain ⟨post, hsplit, hpre, hpost⟩ := h.placed.split hown
  have hforeign {c' : Connection} (hc' : c' ∈ w.model.handlersOf r p) :
      c'.handler.follows d = false → c'.handler.Foreign d k :=
    h.sole.handler_foreign (Model.mem_handlersOf.1 hc').1
  rw [hsplit] at hforeign
  have hpre' : ∀ c' : Connection, c' ∈ _ → c'.handler.Foreign d k := fun c' hc' =>
    hforeign (List.mem_append_left _ hc') (hpre c' hc')
  have hpost' : ∀ c' ∈ post, c'.handler.Foreign d k := fun c' hc' =>
    hforeign (List.mem_append_right _ (List.mem_cons_of_mem c hc')) (hpost c' hc')
  rw [World.notify_eq, if_pos (h.placed.notifies hown)]
  generalize (w.model.handlersOf r p).flatMap (·.handler.holds) = hs
  rw [hsplit, List.foldl_append, List.foldl_cons]
  obtain ⟨haside, hunheard⟩ := (Bystanders.Spares.steady.trans (Bystanders.Spares.loose w
    (hs ++ w.model.holds)) (Bystanders.handlers_foreign hlisten hpre' r _)) h hknown
  obtain ⟨hmirroring, hheard⟩ := turn_follow hlisten (haside.followers r ▸ hown) (h.aside haside)
    ((congrArg (·.get p) (haside.store r h.lt_size)).trans hvalue)
    (fun q hq => (hwithin q hq).of_grown h.whole haside.store (hknown q hq))
    (h.toNoded.mirrors_aside haside hmirrors)
  obtain ⟨haside', hunheard'⟩ := (Bystanders.Spares.steady.trans
    (Bystanders.handlers_foreign hlisten hpost' r _)
    (Bystanders.watchers_foreign hlisten hwatchers r p _)) hmirroring.tended
      fun q hq => hmirroring.lt_size hmirroring.tended.whole hq
  refine ⟨hmirroring.aside haside', ?_⟩
  exact (((hunheard.hears V).trans hheard).trans (hunheard'.hears V)).congr (by simp)

end Listening

end Mirroring

end LiveScope
