import LiveScope.Proofs.Deep.Grafting
import LiveScope.Proofs.Deep.Mirroring
import LiveScope.Proofs.Deep.Refusals

/-!
# When a deep watch takes up a change

A dispatch that concerns a deep watch tells its function, and the deep watch refuses nothing in it
exactly if the new value fits. If the property is dispatched, the value has to fit as a whole
(`Spectating.notify_own`). If an object inside is, the nodes for it are mended one after the other,
and the value has to fit at each of them (`Spectating.notify_inside`).

While the nodes are mended the tree mirrors nothing, neither what was there nor what is. What
carries the induction over the turns is that the nodes whose turn is still to come are where they
were before the change, with what was below them (`Model.Underway`), as long as nothing was refused.
-/

namespace LiveScope

namespace Model

variable {b m m' : Model} {d : DeepId} {r o : ObjectId} {p key : String} {k : CallbackId}
  {v : Value} {t : WatchTree} {n : Nat} {pending : List Nat}

/-- What is known of a model in which a key of an object was changed to a value, about a tree that
mirrored the model before: the value is no object if the change is one of the length of a list, the
nodes for the object are not below each other, and what was in the object is not too deep there. -/
structure Marked (b : Model) (o : ObjectId) (key : String) (v : Value) (t : WatchTree) : Prop where
  /-- All that is referred to exists. -/
  whole : b.Whole
  /-- The value that was written exists. -/
  known : ∀ q, v = .object q → q < b.objects.size
  /-- A length is no object. -/
  length : key = Store.lengthKey ∧ (b.store o).isList → v.object? = none
  /-- What is watched exists. -/
  exist : ∀ x ∈ t.watchers, x.1 < b.objects.size
  /-- No node for the object is below another one. -/
  apart : ∀ n depth s, t.find? o n 1 = some (depth, s) → ∀ n', n' ≠ n → (o, n') ∉ s.watchers
  /-- What was in the object is not too deep where its nodes are. -/
  below : ∀ n depth s, t.find? o n 1 = some (depth, s) →
    ∀ e ∈ s.children, b.Within (maxDepth - depth) e.2.object

/-- Whether a value is not too deep for what is below a node for an object. -/
def Roomy (b : Model) (o : ObjectId) (v : Value) (t : WatchTree) (n : Nat) : Prop :=
  ∀ depth s, t.find? o n 1 = some (depth, s) → ∀ q, v = .object q → b.Within (maxDepth - depth) q

/-- A deep watch with the tree `t` after a change of the object `o` led to the model `b`: its nodes
for `o` with a `pending` watcher are as they were. -/
structure Underway (b m : Model) (d : DeepId) (r : ObjectId) (p : String) (k : CallbackId)
    (o : ObjectId) (t : WatchTree) (pending : List Nat) : Prop extends m.Posted d r p k where
  /-- The content is that after the change. -/
  base : b.Extends m
  /-- No key occurs twice below a node of the tree. -/
  keyed : ∀ t' ∈ m.tree? d, t'.Keyed
  /-- The nodes with a pending watcher are where they were, with what was below them. -/
  kept : ∀ n ∈ pending, ∃ t' depth s, m.tree? d = some t' ∧ t'.find? o n 1 = some (depth, s) ∧
    t.find? o n 1 = some (depth, s)
  /-- No watcher is pending twice. -/
  distinct : pending.Nodup

/-- A property that a deep watch is connected to is told of, and so is everything else about its
object. -/
theorem Posted.notifies (h : m.Posted d r p k) (key : String) : m.notifies r key = true := by
  obtain ⟨c, hc⟩ := List.exists_mem_of_ne_nil _ h.live
  exact notifies_of_mem (List.mem_filter.1 hc).1 (opens_of_none (h.free r) key)

/-- What moves a deep watch is connected to its property. -/
theorem Posted.follower (h : m.Posted d r p k) {c : Connection} (hc : c ∈ m.handlersOf o key)
    (hfollows : c.handler.follows d = true) : o = r ∧ key = p := by
  obtain ⟨hconnected, hkey⟩ := mem_handlersOf.1 hc
  obtain ⟨ho, hp⟩ := h.alone o c (List.mem_filter.2 ⟨hconnected, hfollows⟩)
  exact ⟨ho, hkey.symm.trans hp⟩

/-- The first of the handlers of the property that move the deep watch comes after handlers of
others. -/
theorem Posted.exists_first (h : m.Posted d r p k) : ∃ pre c post,
    m.handlersOf r p = pre ++ c :: post ∧ c ∈ m.followers d r ∧
      ∀ c' ∈ pre, c'.handler.follows d = false := by
  obtain ⟨c₀, hc₀⟩ := List.exists_mem_of_ne_nil _ h.live
  obtain ⟨hconnected₀, hfollows₀⟩ := List.mem_filter.1 hc₀
  have hmem₀ : c₀ ∈ m.handlersOf r p := mem_handlersOf.2 ⟨hconnected₀, (h.alone r c₀ hc₀).2⟩
  have hsome : ((m.handlersOf r p).find? (·.handler.follows d)).isSome = true :=
    List.find?_isSome.2 ⟨c₀, hmem₀, hfollows₀⟩
  obtain ⟨c, hfind⟩ := Option.isSome_iff_exists.1 hsome
  obtain ⟨hfollows, pre, post, hsplit, hpre⟩ := List.find?_eq_some_iff_append.1 hfind
  have hmem : c ∈ m.handlersOf r p := List.mem_of_find?_eq_some hfind
  refine ⟨pre, c, post, hsplit, List.mem_filter.2 ⟨(mem_handlersOf.1 hmem).1, hfollows⟩, ?_⟩
  exact fun c' hc' => Bool.not_eq_true' _ ▸ hpre c' hc'

/-- The nodes with a watcher are the nodes, so that there is room at the ones if there is at the
others. -/
theorem Noded.forall_roomy_iff (h : m.Noded d) (htree : m.tree? d = some t) :
    (∀ x ∈ m.menders d o, b.Roomy o v t x.seq) ↔ ∀ n, b.Roomy o v t n := by
  constructor
  · intro hroomy n depth s hfind
    have hnode : (o, n) ∈ m.watched d := watched_of_tree? htree ▸ (WatchTree.find?_spec hfind).1
    exact hroomy ⟨n, .mend d⟩ (mem_menders.2 ⟨(h.nodes o n).1 hnode, rfl⟩) depth s hfind
  · exact fun hroomy x _ => hroomy x.seq

/-- Before any node was mended all are as they were. -/
theorem Posted.underway (h : m.Posted d r p k) (hbase : b.Extends m) (htree : m.tree? d = some t)
    (hkeyed : t.Keyed) : b.Underway m d r p k o t ((m.menders d o).map (·.seq)) := by
  refine { h with
    base := hbase
    keyed := fun t' ht' => ?_
    kept := fun n hn => ?_
    distinct := (h.numbered o).ascending.imp Nat.ne_of_lt }
  · obtain rfl := Option.some.inj (ht'.symm.trans htree)
    exact hkeyed
  · have hnode : (o, n) ∈ t.watchers :=
      watched_of_tree? htree ▸ (h.nodes o n).2 (mem_menders_map.1 hn)
    obtain ⟨depth, s, hfind⟩ := WatchTree.exists_find? hnode 1
    exact ⟨t, depth, s, htree, hfind, hfind⟩

namespace Underway

/-- What others do leaves the nodes where they are. -/
theorem aside (h : b.Underway m d r p k o t pending) (ha : Aside d k m m') :
    b.Underway m' d r p k o t pending :=
  { h.toPosted.aside ha with
    base := Extends.steady.trans h.base ha.toExtends
    keyed := by
      rw [ha.tree?]
      exact h.keyed
    kept := by
      rw [ha.tree?]
      exact h.kept
    distinct := h.distinct }

/-- A node whose turn is to come is one of the nodes. -/
theorem mem_watched (h : b.Underway m d r p k o t pending) (hn : n ∈ pending) :
    (o, n) ∈ m.watched d := by
  obtain ⟨t', _, _, ht, hfind, _⟩ := h.kept n hn
  rw [watched_of_tree? ht]
  exact (WatchTree.find?_spec hfind).1

/-- The next node can be mended exactly if there is room for the value. -/
theorem mend_ok_iff (h : b.Underway m d r p k o t (n :: pending)) (hm : b.Marked o key v t)
    (halive : m.isDeepAlive d = true) :
    (Model.mend d o n key v m).1 = .ok () ↔ b.Roomy o v t n := by
  obtain ⟨t', depth, s, ht', hfind, hfound⟩ := h.kept n List.mem_cons_self
  have hnode := (WatchTree.find?_spec hfound).1
  have hknown : ∀ q, v = .object q → q < m.objects.size := fun q hq =>
    Nat.lt_of_lt_of_le (hm.known q hq) h.base.size
  have hlength : key = Store.lengthKey ∧ (m.store o).isList → v.object? = none := by
    rw [h.base.store o (hm.exist _ hnode)]
    exact hm.length
  have hbelow : ∀ e ∈ s.children, m.Within (maxDepth - depth) e.2.object := by
    intro e he
    refine (hm.below n depth s hfound e he).of_grown hm.whole h.base.store ?_
    obtain ⟨o', w', children⟩ := s
    refine hm.exist (e.2.object, e.2.watcher) (WatchTree.mem_watchers_of_find? hfound _ ?_)
    rw [WatchTree.watchers_node]
    exact List.mem_cons_of_mem _ (List.mem_flatMap.2 ⟨e, he, e.2.root_mem_watchers⟩)
  rw [Model.mend_ok_iff h.whole halive ht' hfind hknown hlength hbelow]
  have hroom (q : ObjectId) (hq : v = .object q) :
      m.Within (maxDepth - depth) q ↔ b.Within (maxDepth - depth) q :=
    within_iff_of_grown hm.whole h.base.store (hm.known q hq)
  constructor
  · intro hwithin depth' s' hfound' q hq
    obtain ⟨rfl, _⟩ := Prod.mk.inj (Option.some.inj (hfound.symm.trans hfound'))
    exact (hroom q hq).1 (hwithin q hq)
  · intro hroomy q hq
    exact (hroom q hq).2 (hroomy depth s hfound q hq)

/-- When the next node was mended the others are still where they were. -/
theorem mend (h : b.Underway m d r p k o t (n :: pending)) (hm : b.Marked o key v t)
    (hmend : Model.mend d o n key v m = (.ok (), m')) : b.Underway m' d r p k o t pending := by
  obtain ⟨t', depth, s, ht', hfind, hfound⟩ := h.kept n List.mem_cons_self
  obtain ⟨hn, hdistinct⟩ := List.nodup_cons.1 h.distinct
  have hrewatches : m.Rewatches m' := (rewatches_mend d o n key v).of_run hmend
  have hknown : ∀ q, v = .object q → q < m.objects.size := fun q hq =>
    Nat.lt_of_lt_of_le (hm.known q hq) h.base.size
  have hnodup : ∀ t, m.tree? d = some t → t.watchers.Nodup := fun t ht =>
    watched_of_tree? ht ▸ h.nodup
  have hregrown : m'.Posted d r p k ∧ ∀ t' ∈ m'.tree? d, t'.Keyed := by
    rcases regrown_mend h.whole hknown (fun t ht => ⟨hnodup t ht, h.keyed t ht⟩) hmend with
      rfl | ⟨_, _, _, hregrown⟩
    · exact ⟨h.toPosted, h.keyed⟩
    · exact ⟨h.toPosted.regrown hregrown, hregrown.keyed⟩
  refine { hregrown.1 with
    base := Extends.steady.trans h.base hrewatches.extends
    keyed := hregrown.2
    kept := fun n' hn' => ?_
    distinct := hdistinct }
  obtain ⟨t'', depth', s', ht'', hfind', hfound'⟩ := h.kept n' (List.mem_cons_of_mem n hn')
  obtain rfl := Option.some.inj (ht''.symm.trans ht')
  have hne : n' ≠ n := fun heq => hn (heq ▸ hn')
  rcases grafts_of_mend h.whole ht' hknown hmend with rfl | ⟨f, htree, hgrafts⟩
  · exact ⟨t'', depth', s', ht', hfind', hfound'⟩
  · refine ⟨_, depth', s', htree, ?_, hfound'⟩
    -- Neither node is below the other, and what is put below one has new watchers.
    refine WatchTree.find?_modify (hnodup _ ht') (fun children e he => ?_) hfind'
      (hm.apart n' depth' s' hfound' n hne.symm) fun _ _ hagain => ?_
    · refine (hgrafts children e he).imp_right fun hfresh hmem => ?_
      have hold := h.toNoded.le_lastIdOf (h.mem_watched (List.mem_cons_of_mem n hn'))
      exact Nat.not_lt.2 hold (hfresh _ hmem)
    · obtain ⟨_, rfl⟩ := Prod.mk.inj (Option.some.inj (hfind.symm.trans hagain))
      exact hm.apart n depth _ hfound n' hne

end Underway

end Model

namespace Spectating

variable {b : Model} {d : DeepId} {r o : ObjectId} {p key : String} {k : CallbackId} {v : Value}
  {t : WatchTree} {n : Nat} {pending : List Nat} {listen : Listener History} {w : World History}

/-- If nothing is refused in turns that begin with that of the handler of the deep watch, the value
is not too deep. -/
theorem within_of_refusals {c : Connection} {rs : List Recipient} (hposted : w.model.Posted d r p k)
    (hc : c ∈ w.model.followers d r) (hknown : ∀ q, v = .object q → q < w.model.objects.size)
    (hroot : ∀ t ∈ w.model.tree? d, w.model.Within maxDepth t.object)
    (hnone : World.refusals d listen r key v (.handler c :: rs) w = []) :
    ∀ q, v = .object q → w.model.Within maxDepth q := by
  obtain ⟨hconnected, hfollows⟩ := List.mem_filter.1 hc
  have hfound : Recipient.isFound w.model r (.handler c) = true :=
    Model.isConnected_of_mem hconnected
  have hrefusal : Recipient.refusal? d r key v w.model (.handler c) =
      fault? (Model.retarget d v w.model).1 := if_pos hfollows
  rw [World.refusals, List.append_eq_nil_iff, if_pos hfound, hrefusal, Option.toList_eq_nil_iff,
    fault?_eq_none_iff, Model.retarget_ok_iff hposted.whole hknown hroot] at hnone
  exact hnone.1

section Listening

variable (hlisten : listen.Spectates d r p k)

include hlisten

/-! ## Telling the function -/

/-- To tell the function of a deep watch the value of its property. -/
theorem deep_told (tree : Option WatchTree) (halive : w.model.isAlive r = true) :
    World.Told k w (DeepWatch.tell listen ⟨r, p, k, tree⟩ w) := by
  unfold DeepWatch.tell
  dsimp only
  rw [if_pos halive]
  exact tell_told hlisten _ (w.mapModel (·.holdAll _))

/-- The turn of a watcher that mends the deep watch: what was refused is noted, and then the
function is told. -/
theorem watcherTurn_eq (key : String) (v : Value) (hposted : w.model.Posted d r p k)
    (hregistered : ⟨n, .mend d⟩ ∈ w.model.watchersOf o) :
    ∃ tree u, World.watcherTurn listen o key v w ⟨n, .mend d⟩ =
        DeepWatch.tell listen ⟨r, p, k, tree⟩ u ∧ w.client <:+ u.client ∧
      ∀ m, Model.mend d o n key v w.model = (.ok (), m) → u = { w with model := m } := by
  have hwatching : w.model.isWatching o n = true :=
    List.any_eq_true.2 ⟨_, hregistered, beq_self_eq_true n⟩
  obtain ⟨tree, hdeep⟩ := hposted.deep
  unfold World.watcherTurn Watcher.run
  rw [if_pos hwatching]
  dsimp only
  rw [hdeep]
  cases Model.mend d o n key v w.model with
  | mk res m =>
    cases res with
    | ok =>
      refine ⟨tree, { w with model := m }, rfl, List.suffix_rfl, fun m' hm' => ?_⟩
      rw [(Prod.mk.inj hm').2]
    | error fault =>
      exact ⟨tree, _, rfl, (tell_onlooks hlisten _ { w with model := m }).grows, nofun⟩

/-- In the turn of a watcher that mends the deep watch its function is told, also if the value is
refused. -/
theorem watcher_told (hposted : w.model.Posted d r p k)
    (hregistered : ⟨n, .mend d⟩ ∈ w.model.watchersOf o)
    (halive : (World.watcherTurn listen o key v w ⟨n, .mend d⟩).model.isAlive r = true) :
    World.Told k w (World.watcherTurn listen o key v w ⟨n, .mend d⟩) := by
  obtain ⟨tree, u, hturn, hgrows, _⟩ :=
    watcherTurn_eq hlisten key v hposted hregistered
  rw [hturn] at halive ⊢
  by_cases hlives : u.model.isAlive r = true
  · exact (deep_told hlisten tree hlives).within hgrows List.suffix_rfl
  · -- An owner that is not alive when the function would be told is not alive after the turn.
    unfold DeepWatch.tell at halive
    rw [if_neg hlives] at halive
    exact absurd halive hlives

/-- In the turn of the handler of the deep watch its function is told, also if the value is
refused. -/
theorem handler_told {c : Connection} (hposted : w.model.Posted d r p k)
    (hc : c ∈ w.model.followers d r) :
    World.Told k w (Recipient.turn listen r key v w (.handler c)) := by
  obtain ⟨hconnected, hfollows⟩ := List.mem_filter.1 hc
  obtain ⟨tree, hdeep⟩ := hposted.deep
  unfold Recipient.turn Recipient.isFound Recipient.call Handler.run
  dsimp only
  rw [if_pos (Model.isConnected_of_mem hconnected), Handler.eq_follow hfollows]
  dsimp only
  rw [hdeep]
  cases Model.retarget d v w.model with
  | mk res m =>
    refine (tell_told hlisten v _).within ?_ List.suffix_rfl
    cases res with
    | ok => exact List.suffix_rfl
    | error => exact (tell_onlooks hlisten _ { w with model := m }).grows

/-! ## Dispatches of an object inside -/

/-- In the turns of watchers, of which one mends the deep watch, its function is told. -/
theorem watchers_told {xs : List Watcher} (hposted : w.model.Posted d r p k)
    (hknown : ∀ q, v = .object q → q < w.model.objects.size)
    (hregistered : ∀ x ∈ xs, x.watch = .mend d → x ∈ w.model.menders d o)
    (hown : ∃ x ∈ xs, x.watch = .mend d)
    (halive : ∀ turns, turns <+: xs →
      (turns.foldl (World.watcherTurn listen o key v) w).model.isAlive r = true) :
    World.Told k w (xs.foldl (World.watcherTurn listen o key v) w) := by
  induction xs generalizing w with
  | nil =>
    obtain ⟨_, hx, _⟩ := hown
    cases hx
  | cons x xs ih =>
    rw [List.foldl_cons]
    by_cases hx : x.watch = .mend d
    · -- The first watcher tells, and what the others do takes nothing back.
      obtain ⟨n, watch⟩ := x
      obtain rfl : watch = .mend d := hx
      have hmem := (Model.mem_menders.1 (hregistered _ List.mem_cons_self rfl)).1
      have htold := watcher_told hlisten hposted hmem (halive [_] ⟨xs, rfl⟩)
      have hrest (u : World History) :
          World.Onlooks u (xs.foldl (World.watcherTurn listen o key v) u) :=
        World.Onlooks.steady.foldl xs (fun y _ u => turn_onlooks hlisten (.watcher y) u) u
      exact htold.within List.suffix_rfl (hrest _).grows
    · -- The one that tells is still to come, and is still registered after a turn aside.
      have haside : Model.Aside d k w.model (World.watcherTurn listen o key v w x).model :=
        turn_other hlisten (show ¬ Recipient.Attends d (.watcher x) from hx) w hposted hknown
      have honlooks : World.Onlooks w (World.watcherTurn listen o key v w x) :=
        turn_onlooks hlisten (.watcher x) w
      refine (ih (hposted.aside haside) (fun q hq => ?_) (fun y hy hyd => ?_) ?_ ?_).within
        honlooks.grows List.suffix_rfl
      · exact Nat.lt_of_lt_of_le (hknown q hq) haside.size
      · rw [haside.menders]
        exact hregistered y (List.mem_cons_of_mem x hy) hyd
      · obtain ⟨y, hy, hyd⟩ := hown
        exact ⟨y, (List.mem_cons.1 hy).resolve_left fun heq => hx (heq ▸ hyd), hyd⟩
      · exact fun turns hturns => halive (x :: turns) ((List.prefix_cons_inj x).2 hturns)

/-- The turn of the next watcher that mends the deep watch. If nothing is refused in it, the nodes
of those after it are where they were. -/
theorem turn_own (h : b.Underway w.model d r p k o t (n :: pending)) (hm : b.Marked o key v t)
    (hdone : (Model.mend d o n key v w.model).1 = .ok ()) :
    b.Underway (World.watcherTurn listen o key v w ⟨n, .mend d⟩).model d r p k o t pending := by
  have hmem := (h.nodes o n).1 (h.mem_watched List.mem_cons_self)
  obtain ⟨tree, u, hturn, _, hmended⟩ :=
    watcherTurn_eq hlisten key v h.toPosted hmem
  cases hmend : Model.mend d o n key v w.model with
  | mk res m =>
    rw [hmend] at hdone
    obtain rfl : res = .ok () := hdone
    obtain rfl := hmended m hmend
    have hnext : b.Underway m d r p k o t pending := h.mend hm hmend
    have hspares : Spares d r p k v { w with model := m }
        (DeepWatch.tell listen ⟨r, p, k, tree⟩ { w with model := m }) :=
      World.deep_tells Spares.steady (holding_spares hlisten) _ _
    rw [hturn]
    exact hnext.aside (hspares hnext.toPosted fun q hq =>
      Nat.lt_of_lt_of_le (hm.known q hq) hnext.base.size)

/-- In the turns of watchers nothing is refused exactly if there is room for the value at each node
with one of them. -/
theorem watchers_refusals_iff {xs : List Watcher}
    (h : b.Underway w.model d r p k o t ((xs.filter (·.watch = .mend d)).map (·.seq)))
    (hm : b.Marked o key v t)
    (halive : ∀ turns, turns <+: xs →
      (turns.foldl (World.watcherTurn listen o key v) w).model.isAlive r = true) :
    World.refusals d listen o key v (xs.map .watcher) w = [] ↔
      ∀ x ∈ xs, x.watch = .mend d → b.Roomy o v t x.seq := by
  induction xs generalizing w with
  | nil => exact iff_of_true rfl nofun
  | cons x xs ih =>
    have halive' : ∀ turns, turns <+: xs → (turns.foldl (World.watcherTurn listen o key v)
        (World.watcherTurn listen o key v w x)).model.isAlive r = true := fun turns hturns =>
      halive (x :: turns) ((List.prefix_cons_inj x).2 hturns)
    have hturn : Recipient.turn listen o key v w (.watcher x) =
        World.watcherTurn listen o key v w x := rfl
    rw [List.map_cons, World.refusals, hturn, List.append_eq_nil_iff, List.forall_mem_cons]
    by_cases hx : x.watch = .mend d
    · -- The watcher is refused its value or not; the others have their turns after it if it is not.
      obtain ⟨n, watch⟩ := x
      obtain rfl : watch = .mend d := hx
      rw [List.filter_cons_of_pos (by simp), List.map_cons] at h
      have hmem := (h.nodes o n).1 (h.mem_watched List.mem_cons_self)
      have hfound : Recipient.isFound w.model o (.watcher ⟨n, .mend d⟩) = true :=
        List.any_eq_true.2 ⟨_, hmem, beq_self_eq_true n⟩
      have hrefusal : Recipient.refusal? d o key v w.model (.watcher ⟨n, .mend d⟩) =
          fault? (Model.mend d o n key v w.model).1 := if_pos rfl
      have hdeep := Mirroring.isDeepAlive h.live (halive [] List.nil_prefix)
      have hfirst := h.mend_ok_iff hm hdeep
      rw [if_pos hfound, hrefusal, Option.toList_eq_nil_iff, fault?_eq_none_iff]
      constructor
      · rintro ⟨hdone, hrest⟩
        exact ⟨fun _ => hfirst.1 hdone, (ih (turn_own hlisten h hm hdone) halive').1 hrest⟩
      · rintro ⟨hroomy, hrest⟩
        have hdone := hfirst.2 (hroomy rfl)
        exact ⟨hdone, (ih (turn_own hlisten h hm hdone) halive').2 hrest⟩
    · -- Another watcher refuses nothing on behalf of the deep watch.
      rw [List.filter_cons_of_neg (by simpa using hx)] at h
      have haside : Model.Aside d k w.model (World.watcherTurn listen o key v w x).model :=
        turn_other hlisten (show ¬ Recipient.Attends d (.watcher x) from hx) w h.toPosted
          fun q hq => Nat.lt_of_lt_of_le (hm.known q hq) h.base.size
      rw [Recipient.refusal?_of_not_attends (r := .watcher x) hx, ite_self,
        ih (h.aside haside) halive']
      exact and_congr (iff_of_true rfl fun hown => absurd hown hx) Iff.rfl

/-- A dispatch of an object inside the value of the property tells the function of the deep watch,
and nothing is refused in it exactly if there is room for the value at each node for the object. -/
theorem notify_inside
    (h : b.Underway w.model d r p k o t ((w.model.menders d o).map (·.seq)))
    (hm : b.Marked o key v t) (ho : o ≠ r) (hnodes : w.model.menders d o ≠ [])
    (halive : World.StaysAlive r listen o key v w) :
    World.Told k w (w.notify listen o key v) ∧
      (w.notifyRefusals d listen o key v = [] ↔
        ∀ x ∈ w.model.menders d o, b.Roomy o v t x.seq) := by
  have hkey : w.model.notifies o key = true := by
    by_contra hsilent
    exact hnodes (Model.menders_of_silent (h.free o) hsilent)
  have hknown : ∀ q, v = .object q → q < w.model.objects.size := fun q hq =>
    Nat.lt_of_lt_of_le (hm.known q hq) h.base.size
  have hother : ∀ r' ∈ (w.model.handlersOf o key).map Recipient.handler, ¬ r'.Attends d := by
    intro r' hr' hattends
    obtain ⟨c, hc, rfl⟩ := List.mem_map.1 hr'
    exact ho (h.toPosted.follower hc hattends).1
  have hhold := World.Onlooks.attends.loose w
    ((w.model.handlersOf o key).flatMap (·.handler.holds) ++ w.model.holds)
  unfold World.StaysAlive at halive
  dsimp only at halive
  rw [World.notify_eq_turns listen key v hkey]
  unfold World.notifyRefusals Model.recipients
  rw [if_pos hkey, World.refusals_append, World.refusals_of_not_attends hother, List.nil_append,
    List.foldl_append, List.foldl_map (f := Recipient.watcher)]
  -- The handlers are of others, so that the watchers find the deep watch as it was.
  have hbefore : Spares d r p k v w (((w.model.handlersOf o key).map Recipient.handler).foldl
      (Recipient.turn listen o key v) (w.holdHandlers o key)) :=
    Spares.steady.trans (Spares.loose w _) (turns_other hlisten hother _)
  have haside := hbefore h.toPosted hknown
  have honlooks : World.Onlooks w (((w.model.handlersOf o key).map Recipient.handler).foldl
      (Recipient.turn listen o key v) (w.holdHandlers o key)) :=
    World.Onlooks.steady.trans hhold (turns_onlooks hlisten _ _)
  have hfold : ((w.model.handlersOf o key).map Recipient.handler).foldl
      (Recipient.turn listen o key v) (w.holdHandlers o key) =
      (w.model.handlersOf o key).foldl (World.handlerTurn listen o v)
        (w.mapModel (·.holdAll ((w.model.handlersOf o key).flatMap (·.handler.holds)))) :=
    List.foldl_map
  rw [← hfold] at halive
  generalize ((w.model.handlersOf o key).map Recipient.handler).foldl _ _ = u at *
  constructor
  · refine World.Notified.within (watchers_told hlisten (h.toPosted.aside haside) (fun q hq => ?_)
      (fun x hx hmend => ?_) ?_ halive) honlooks.grows List.suffix_rfl
    · exact Nat.lt_of_lt_of_le (hknown q hq) haside.size
    · rw [haside.menders]
      exact Model.mem_menders.2 ⟨hx, hmend⟩
    · exact Model.menders_ne_nil.1 hnodes
  · rw [watchers_refusals_iff hlisten (h.aside haside) hm halive]
    constructor
    · intro hall x hx
      obtain ⟨hmem, hmend⟩ := Model.mem_menders.1 hx
      exact hall x hmem hmend
    · exact fun hall x hx hmend => hall x (Model.mem_menders.2 ⟨hx, hmend⟩)

/-! ## Dispatches of the property -/

/-- In the turns of recipients of which none mends the deep watch nothing is refused that is not too
deep. -/
theorem refusals_of_within {rs : List Recipient} (hwhole : b.Whole) (hbase : b.Extends w.model)
    (hwhole' : w.model.Whole)
    (hv : ∀ q, v = .object q → q < b.objects.size ∧ b.Within maxDepth q)
    (hrs : ∀ x, .watcher x ∈ rs → x.watch ≠ .mend d) :
    World.refusals d listen o key v rs w = [] := by
  refine World.refusals_eq_nil (P := fun u => b.Extends u.model ∧ u.model.Whole)
    (fun r' u hu => ?_) (fun r' hr' u hu => ?_) ⟨hbase, hwhole'⟩
  · have hturn : World.Onlooks u (r'.turn listen o key v u) := turn_onlooks hlisten r' u
    exact ⟨Model.Extends.steady.trans hu.1 hturn.content, hturn.whole hu.2⟩
  · cases r' with
    | handler c =>
      obtain ⟨m', hret⟩ := Model.Within.retargets (d := d) (v := v) hu.2 fun q hq =>
        ⟨Nat.lt_of_lt_of_le (hv q hq).1 hu.1.size,
          (hv q hq).2.of_grown hwhole hu.1.store (hv q hq).1⟩
      unfold Recipient.refusal?
      dsimp only
      rw [fault?_eq_none_iff.2 (by rw [hret]), ite_self]
    | watcher x => exact Recipient.refusal?_of_not_attends (hrs x hr')

/-- A dispatch of the property tells the function of the deep watch, and nothing is refused in it
exactly if the value is not too deep. -/
theorem notify_own (hposted : w.model.Posted d r p k) (hwhole : b.Whole)
    (hbase : b.Extends w.model) (hknown : ∀ q, v = .object q → q < b.objects.size)
    (hapart : w.model.menders d r = [])
    (hroot : ∀ t ∈ w.model.tree? d, t.object < b.objects.size ∧ b.Within maxDepth t.object) :
    World.Told k w (w.notify listen r p v) ∧
      (w.notifyRefusals d listen r p v = [] ↔ ∀ q, v = .object q → b.Within maxDepth q) := by
  obtain ⟨pre, c, post, hsplit, hc, hpre⟩ := hposted.exists_first
  have hother : ∀ r' ∈ pre.map Recipient.handler, ¬ r'.Attends d := by
    intro r' hr' hattends
    obtain ⟨c', hc', rfl⟩ := List.mem_map.1 hr'
    exact Bool.false_ne_true ((hpre c' hc').symm.trans hattends)
  let late := post.map Recipient.handler ++ (w.model.watchersOf r).map Recipient.watcher
  have hlate : ∀ x, .watcher x ∈ Recipient.handler c :: late → x.watch ≠ .mend d := by
    intro x hx hmend
    rcases List.mem_append.1 ((List.mem_cons.1 hx).resolve_left nofun) with hx | hx
    · obtain ⟨_, _, heq⟩ := List.mem_map.1 hx
      cases heq
    · obtain ⟨y, hy, heq⟩ := List.mem_map.1 hx
      obtain rfl := Recipient.watcher.inj heq
      exact List.ne_nil_of_mem (Model.mem_menders.2 ⟨hy, hmend⟩) hapart
  have hrecipients : w.model.recipients r p =
      pre.map Recipient.handler ++ Recipient.handler c :: late := by
    unfold Model.recipients
    rw [hsplit, List.map_append, List.map_cons, List.append_assoc]
    rfl
  -- The handlers before are of others, so that they leave the deep watch as it is.
  have hbefore : Spares d r p k v w ((pre.map Recipient.handler).foldl
      (Recipient.turn listen r p v) (w.holdHandlers r p)) :=
    Spares.steady.trans (Spares.loose w _) (turns_other hlisten hother _)
  have haside := hbefore hposted fun q hq => Nat.lt_of_lt_of_le (hknown q hq) hbase.size
  have honlooks : World.Onlooks w ((pre.map Recipient.handler).foldl
      (Recipient.turn listen r p v) (w.holdHandlers r p)) :=
    World.Onlooks.steady.trans (World.Onlooks.attends.loose w _) (turns_onlooks hlisten _ _)
  rw [World.notify_eq_turns listen p v (hposted.notifies p)]
  unfold World.notifyRefusals
  rw [if_pos (hposted.notifies p), hrecipients, List.foldl_append, List.foldl_cons,
    World.refusals_append, World.refusals_of_not_attends hother, List.nil_append]
  generalize (pre.map Recipient.handler).foldl (Recipient.turn listen r p v) _ = u at *
  have hposted' := hposted.aside haside
  have hbase' : b.Extends u.model := Model.Extends.steady.trans hbase haside.toExtends
  have hfollower : c ∈ u.model.followers d r := by
    rw [haside.followers]
    exact hc
  constructor
  · have htold : World.Told k u (Recipient.turn listen r p v u (.handler c)) :=
      handler_told hlisten hposted' hfollower
    exact htold.within honlooks.grows (turns_onlooks hlisten late _).grows
  constructor
  · intro hnone q hq
    have hwithin := within_of_refusals hposted' hfollower
      (fun q hq => Nat.lt_of_lt_of_le (hknown q hq) hbase'.size) (fun t ht => ?_) hnone q hq
    · exact (Model.within_iff_of_grown hwhole hbase'.store (hknown q hq)).1 hwithin
    · rw [haside.tree?] at ht
      obtain ⟨hexist, hwithin⟩ := hroot t ht
      exact hwithin.of_grown hwhole hbase'.store hexist
  · exact fun hwithin => refusals_of_within hlisten hwhole hbase' hposted'.whole
      (fun q hq => ⟨hknown q hq, hwithin q hq⟩) hlate

end Listening

end Spectating

end LiveScope
