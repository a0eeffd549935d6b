import LiveScope.Proofs.Deep.Following
import LiveScope.Proofs.Model.Refusing

/-!
# A deep watch among others

A deep watch is posted if it is connected to its property alone and its nodes are the watchers that
mend it, one for each (`Model.Posted`). It is tended if besides the property belongs to a map and
nothing else tells its function (`Model.Tended`). Others may do as they like beside it, as long as
they write nothing and take none of this away: `Model.Aside` says so of a change. It covers what the
library does to other deep watches (`Model.Reshaped.aside`), because these have nodes of their own.
What moves or mends the deep watch itself keeps it tended (`Model.Tended.regrown`).
-/

namespace LiveScope.Model

variable {m m' m₁ m₂ : Model} {d e : DeepId} {r o q : ObjectId} {p key : String}
  {k : CallbackId} {v : Value} {gone added out : List (ObjectId × Nat)}

/-- The watchers of an object that mend a deep watch. -/
def menders (m : Model) (d : DeepId) (o : ObjectId) : List Watcher :=
  (m.watchersOf o).filter (·.watch = .mend d)

/-- A write leaves the watchers of a deep watch. -/
theorem menders_setStore (m : Model) (o : ObjectId) (s : Store) (q : ObjectId) :
    (m.setStore o s).menders d q = m.menders d q := by
  unfold menders
  rw [watchersOf_setStore]

/-- Whether the watchers that mend a deep watch are its nodes, one for each, and no other deep watch
has such a node. -/
structure Noded (m : Model) (d : DeepId) : Prop where
  /-- No node occurs twice. -/
  nodup : (m.watched d).Nodup
  /-- The watchers that mend the deep watch have ascending numbers that were given out. -/
  numbered : ∀ o, Ascends (m.lastIdOf o) ((m.menders d o).map (·.seq))
  /-- They are the nodes. -/
  nodes : ∀ o n, (o, n) ∈ m.watched d ↔ ⟨n, .mend d⟩ ∈ m.watchersOf o
  /-- The nodes of other deep watches are others, with numbers that were given out. -/
  apart : ∀ e, e ≠ d → ∀ x ∈ m.watched e, x.2 ≤ m.lastIdOf x.1 ∧ x ∉ m.watched d

/-- Whether a function is told by nothing but a deep watch. -/
structure Sole (m : Model) (d : DeepId) (k : CallbackId) : Prop where
  /-- A handler that tells the function moves the deep watch. -/
  handlers : ∀ o, ∀ c ∈ m.connectionsOf o,
    m.handlerCallback c.handler = some k → c.handler = .follow d
  /-- A watcher that tells it mends the deep watch. -/
  watchers : ∀ o, ∀ x ∈ m.watchersOf o, m.watchCallback x.watch = some k → x.watch = .mend d
  /-- A deep watch that tells it is this one. -/
  deeps : ∀ e deep, m.deep? e = some deep → deep.callback = k → e = d

/-- Whether a deep watch of the property `p` of `r`, which tells the function `k`, is connected
there and nowhere else, and has its nodes watched. -/
structure Posted (m : Model) (d : DeepId) (r : ObjectId) (p : String) (k : CallbackId) : Prop
    extends m.Noded d where
  /-- All that is referred to exists. -/
  whole : m.Whole
  /-- What moves the deep watch is connected to its property. -/
  alone : ∀ o, ∀ c ∈ m.followers d o, o = r ∧ c.key = p
  /-- Something moves it. -/
  live : m.followers d r ≠ []
  /-- It is one of the property, and tells the function. -/
  deep : ∃ tree, m.deep? d = some ⟨r, p, k, tree⟩
  /-- All changes of all objects are told of. -/
  free : ∀ o, m.keysOf o = none

/-- Whether a deep watch of the property `p` of `r` is connected, has its nodes watched, and is
alone in telling the function `k`. -/
structure Tended (m : Model) (d : DeepId) (r : ObjectId) (p : String) (k : CallbackId) : Prop
    extends m.Noded d where
  /-- All that is referred to exists. -/
  whole : m.Whole
  /-- It is connected to its property alone, and at most once. -/
  placed : m.Placed d r p
  /-- It is connected. -/
  live : m.followers d r ≠ []
  /-- It is one of the property, and tells the function. -/
  deep : ∃ tree, m.deep? d = some ⟨r, p, k, tree⟩
  /-- All changes of all objects are told of. -/
  free : ∀ o, m.keysOf o = none
  /-- Nothing else tells the function. -/
  sole : m.Sole d k

/-- Whether `m'` has the content of `m`, perhaps with further objects. -/
structure Extends (m m' : Model) : Prop where
  /-- No object is lost. -/
  size : m.objects.size ≤ m'.objects.size
  /-- Each has the same content. -/
  store : ∀ o, o < m.objects.size → m'.store o = m.store o

/-- `m'` has the content of `m`, perhaps with further objects, and the deep watch as it was; other
deep watches take up only nodes with new numbers, and nothing else is made to tell the function. -/
structure Aside (d : DeepId) (k : CallbackId) (m m' : Model) : Prop extends Extends m m' where
  /-- All that is referred to exists, if it did. -/
  whole : m.Whole → m'.Whole
  /-- Numbers that were given out stay given out. -/
  lastIdOf : ∀ o, m.lastIdOf o ≤ m'.lastIdOf o
  /-- An object of which all changes are told of stays one. -/
  keysOf : ∀ o, m.keysOf o = none → m'.keysOf o = none
  /-- The same connections move the deep watch. -/
  followers : ∀ o, m'.followers d o = m.followers d o
  /-- The same watchers mend it. -/
  menders : ∀ o, m'.menders d o = m.menders d o
  /-- It is the same. -/
  deep? : m'.deep? d = m.deep? d
  /-- The nodes of other deep watches were theirs, or have new numbers. -/
  others : ∀ e, e ≠ d → ∀ x ∈ m'.watched e,
    x ∈ m.watched e ∨ m.lastIdOf x.1 < x.2 ∧ x.2 ≤ m'.lastIdOf x.1
  /-- Nothing else tells the function, if nothing else did. -/
  sole : m.Sole d k → m'.Sole d k

/-- The watchers that mend a deep watch are watchers. -/
theorem mem_menders {x : Watcher} :
    x ∈ m.menders d o ↔ x ∈ m.watchersOf o ∧ x.watch = .mend d := by
  unfold menders
  rw [List.mem_filter, decide_eq_true_iff]

/-- An object has watchers that mend a deep watch if one of its watchers does. -/
theorem menders_ne_nil : m.menders d o ≠ [] ↔ ∃ x ∈ m.watchersOf o, x.watch = .mend d := by
  constructor
  · intro hne
    obtain ⟨x, hx⟩ := List.exists_mem_of_ne_nil _ hne
    exact ⟨x, mem_menders.1 hx⟩
  · rintro ⟨x, hx⟩
    exact List.ne_nil_of_mem (mem_menders.2 hx)

/-- An object whose dispatches are silent, although its keys are not restricted, has no binding and
so no watchers. -/
theorem menders_of_silent (hfree : m.keysOf o = none) (hsilent : ¬ m.notifies o key = true) :
    m.menders d o = [] := by
  unfold notifies at hsilent
  unfold keysOf at hfree
  unfold menders watchersOf
  cases hb : m.binding? o with
  | none => rfl
  | some b =>
    rw [hb] at hsilent hfree
    refine absurd ?_ hsilent
    show b.keys.all _ = true
    rw [show b.keys = none from hfree]
    rfl

/-- The watchers that mend a deep watch have numbers and nothing else. -/
theorem mem_menders_map {n : Nat} :
    n ∈ (m.menders d o).map (·.seq) ↔ ⟨n, .mend d⟩ ∈ m.watchersOf o := by
  rw [List.mem_map]
  constructor
  · rintro ⟨⟨seq, watch⟩, hx, rfl⟩
    obtain ⟨hmem, rfl⟩ := mem_menders.1 hx
    exact hmem
  · intro h
    exact ⟨_, mem_menders.2 ⟨h, rfl⟩, rfl⟩

namespace Noded

/-- The number of a node was given out. -/
theorem le_lastIdOf (h : m.Noded d) {x : ObjectId × Nat} (hx : x ∈ m.watched d) :
    x.2 ≤ m.lastIdOf x.1 :=
  (h.numbered x.1).bounded x.2 (mem_menders_map.2 ((h.nodes x.1 x.2).1 hx))

/-- The object of a node exists. -/
theorem lt_size (h : m.Noded d) {x : ObjectId × Nat} (hx : x ∈ m.watched d) :
    x.1 < m.objects.size :=
  lt_size_of_isBound (isBound_of_mem_elim (·.watchers) ((h.nodes x.1 x.2).1 hx))

/-- What takes no watcher of a deep watch and none of its nodes leaves it its nodes. -/
theorem aside (h : m.Noded d) (hlast : ∀ o, m.lastIdOf o ≤ m'.lastIdOf o)
    (hmenders : ∀ o, m'.menders d o = m.menders d o) (hwatched : m'.watched d = m.watched d)
    (hothers : ∀ e, e ≠ d → ∀ x ∈ m'.watched e,
      x ∈ m.watched e ∨ m.lastIdOf x.1 < x.2 ∧ x.2 ≤ m'.lastIdOf x.1) : m'.Noded d where
  nodup := by
    rw [hwatched]
    exact h.nodup
  numbered o := by
    rw [hmenders]
    exact (h.numbered o).sublist (.refl _) (hlast o)
  nodes o n := by
    rw [hwatched, ← mem_menders_map, hmenders, mem_menders_map]
    exact h.nodes o n
  apart e he x hx := by
    rw [hwatched]
    rcases hothers e he x hx with hx | ⟨hnew, hle⟩
    · obtain ⟨hle, hnot⟩ := h.apart e he x hx
      exact ⟨Nat.le_trans hle (hlast x.1), hnot⟩
    · exact ⟨hle, fun hmem => Nat.not_lt.2 (h.le_lastIdOf hmem) hnew⟩

/-- A deep watch that gets another tree has the nodes of that. -/
theorem regrown (h : m.Noded d) (hr : Regrown d out gone added m m') : m'.Noded d := by
  have hlast := hr.swapped.rewatches.lastIdOf
  have hfresh := hr.swapped.fresh
  have hsplit := List.nodup_append.1 (hr.before.nodup_iff.1 h.nodup)
  have hout : ∀ x ∈ out, x ∈ m.watched d := fun x hx =>
    hr.before.mem_iff.2 (List.mem_append_left gone hx)
  constructor
  case nodup =>
    refine hr.after.nodup_iff.2 (List.nodup_append.2 ⟨hsplit.1, hr.swapped.nodup, ?_⟩)
    rintro x hx y hy rfl
    exact Nat.not_lt.2 (h.le_lastIdOf (hout x hx)) (hfresh x hy).1
  case numbered =>
    intro o
    obtain ⟨new, hnew, hasc, hmem⟩ := hr.swapped.watchersOf o
    have hmenders : (m'.menders d o).Sublist (m.menders d o ++ new) := by
      unfold menders
      rw [hnew, List.filter_append]
      exact (List.filter_sublist.filter _).append List.filter_sublist
    have hall := (h.numbered o).append (hlast o) (List.pairwise_map.2 hasc) fun n hn => by
      obtain ⟨x, hx, rfl⟩ := List.mem_map.1 hn
      exact hfresh _ ((hmem x).1 hx).2
    rw [← List.map_append] at hall
    exact hall.sublist (hmenders.map _) (Nat.le_refl _)
  case nodes =>
    intro o n
    -- A node is one that was there and is not given up, or a new one, and so is a watcher.
    obtain ⟨new, hnew, _, hmem⟩ := hr.swapped.watchersOf o
    have hkept : (o, n) ∈ out ↔ (o, n) ∈ m.watched d ∧ (o, n) ∉ gone := by
      rw [hr.before.mem_iff, List.mem_append]
      refine ⟨fun hin => ⟨.inl hin, fun hout => hsplit.2.2 _ hin _ hout rfl⟩, ?_⟩
      rintro ⟨hin | hin, hnot⟩
      · exact hin
      · exact absurd hin hnot
    rw [hr.after.mem_iff, List.mem_append, hkept, hnew, List.mem_append, List.mem_filter, hmem,
      h.nodes]
    simp
  case apart =>
    intro e he x hx
    rw [hr.watched_of_ne he] at hx
    obtain ⟨hle, hnot⟩ := h.apart e he x hx
    refine ⟨Nat.le_trans hle (hlast x.1), fun hmem => ?_⟩
    rcases List.mem_append.1 (hr.after.mem_iff.1 hmem) with hin | hin
    · exact hnot (hout x hin)
    · exact Nat.not_lt.2 hle (hfresh x hin).1

end Noded

/-- What mends or moves a deep watch makes nothing else tell its function. -/
theorem Sole.swapped (h : m.Sole d k) (hs : Swapped e gone added m m') : m'.Sole d k where
  handlers o c hc htells := by
    rw [hs.rewatches.connectionsOf] at hc
    rw [handlerCallback_of_rewatches hs.rewatches] at htells
    exact h.handlers o c hc htells
  watchers o x hx htells := by
    have hcallback (e : DeepId) := handlerCallback_of_rewatches hs.rewatches (.follow e)
    obtain ⟨new, hnew, _, hmem⟩ := hs.watchersOf o
    rw [hnew] at hx
    cases hw : x.watch with
    | report callback =>
      rcases List.mem_append.1 hx with hx | hx
      · rw [hw] at htells
        have := h.watchers o x (List.mem_filter.1 hx).1 (hw ▸ htells)
        rwa [hw] at this
      · rw [((hmem x).1 hx).1] at hw
        cases hw
    | mend e' =>
      rw [hw] at htells
      obtain ⟨deep, hdeep, hk⟩ := Option.map_eq_some_iff.1 ((hcallback e').symm.trans htells)
      rw [h.deeps e' deep hdeep hk]
  deeps e' deep hdeep hk := by
    have hcallback := handlerCallback_of_rewatches hs.rewatches (.follow e')
    rw [handlerCallback_follow hdeep] at hcallback
    obtain ⟨deep', hdeep', heq⟩ := Option.map_eq_some_iff.1 hcallback.symm
    exact h.deeps e' deep' hdeep' (heq.trans hk)

/-! ## What others do -/

/-- Any number of extensions are one. -/
theorem Extends.steady : Steady Extends where
  refl _ := ⟨Nat.le_refl _, fun _ _ => rfl⟩
  trans h h' := ⟨Nat.le_trans h.size h'.size, fun o ho =>
    (h'.store o (Nat.lt_of_lt_of_le ho h.size)).trans (h.store o ho)⟩

/-- What rewatches leaves the content. -/
theorem Rewatches.extends (h : m.Rewatches m') : m.Extends m' :=
  ⟨Nat.le_of_eq h.size.symm, fun o _ => h.store o⟩

/-- What rewatches leaves a deep watch its property and its function. -/
theorem Rewatches.deep_of (h : m.Rewatches m') {tree : Option WatchTree}
    (hdeep : m.deep? d = some ⟨r, p, k, tree⟩) : ∃ tree', m'.deep? d = some ⟨r, p, k, tree'⟩ := by
  have hbare := h.deep? d
  rw [hdeep] at hbare
  obtain ⟨⟨r', p', k', tree'⟩, hdeep', heq⟩ := Option.map_eq_some_iff.1 hbare
  obtain ⟨hr, hp, hk, _⟩ := DeepWatch.mk.inj heq
  refine ⟨tree', ?_⟩
  rw [hdeep']
  dsimp only at hr hp hk
  rw [hr, hp, hk]

/-- Any number of changes aside are one. -/
theorem Aside.steady (d : DeepId) (k : CallbackId) : Steady (Aside d k) where
  refl m := ⟨Extends.steady.refl m, id, fun _ => Nat.le_refl _, fun _ h => h, fun _ => rfl,
    fun _ => rfl, rfl, fun _ _ _ hx => .inl hx, id⟩
  trans {a b c} h h' := {
    Extends.steady.trans h.toExtends h'.toExtends with
    whole := fun hwhole => h'.whole (h.whole hwhole)
    lastIdOf := fun o => Nat.le_trans (h.lastIdOf o) (h'.lastIdOf o)
    keysOf := fun o hkeys => h'.keysOf o (h.keysOf o hkeys)
    followers := fun o => (h'.followers o).trans (h.followers o)
    menders := fun o => (h'.menders o).trans (h.menders o)
    deep? := h'.deep?.trans h.deep?
    others := fun e he x hx => by
      have hlast := h.lastIdOf x.1
      have hlast' := h'.lastIdOf x.1
      rcases h'.others e he x hx with hx | hnew
      · exact (h.others e he x hx).imp_right fun hnew => by omega
      · exact .inr (by omega)
    sole := fun hsole => h'.sole (h.sole hsole) }

/-- The trees are read off the deep watches. -/
theorem Aside.tree? (h : Aside d k m m') : m'.tree? d = m.tree? d := by
  unfold Model.tree?
  rw [h.deep?]

/-- The nodes are read off the deep watches. -/
theorem Aside.watched (h : Aside d k m m') : m'.watched d = m.watched d := by
  unfold Model.watched
  rw [h.tree?]

/-- Holding other things. -/
theorem aside_holds (d : DeepId) (k : CallbackId) (m : Model) (holds : List Hold) :
    Aside d k m { m with holds } where
  toExtends := (rewatches_holds m holds).extends
  whole h := h
  lastIdOf _ := Nat.le_refl _
  keysOf _ h := h
  followers _ := rfl
  menders _ := rfl
  deep? := rfl
  others _ _ _ hx := .inl hx
  sole h := ⟨h.handlers, h.watchers, h.deeps⟩

/-- Giving up what was held. -/
theorem aside_releaseAll (d : DeepId) (k : CallbackId) (m : Model) (hs : List Hold) :
    Aside d k m (m.releaseAll hs) :=
  (Aside.steady d k).foldl hs (fun h _ m => aside_holds d k m (m.holds.erase h)) m

namespace Posted

/-- The property belongs to an object that exists. -/
theorem lt_size (h : m.Posted d r p k) : r < m.objects.size := by
  obtain ⟨c, hc⟩ := List.exists_mem_of_ne_nil _ h.live
  exact lt_size_of_isBound (isBound_of_mem_connectionsOf (List.mem_filter.1 hc).1)

/-- A change aside leaves the deep watch where it is. -/
theorem aside (h : m.Posted d r p k) (ha : Aside d k m m') : m'.Posted d r p k where
  toNoded := h.toNoded.aside ha.lastIdOf ha.menders ha.watched ha.others
  whole := ha.whole h.whole
  alone o := by
    rw [ha.followers]
    exact h.alone o
  live := by
    rw [ha.followers]
    exact h.live
  deep := by
    rw [ha.deep?]
    exact h.deep
  free o := ha.keysOf o (h.free o)

/-- To move or mend the deep watch leaves it where it is. -/
theorem regrown (h : m.Posted d r p k) (hr : Regrown d out gone added m m') :
    m'.Posted d r p k where
  toNoded := h.toNoded.regrown hr
  whole := h.whole.rewatches hr.swapped.rewatches
  alone o := by
    unfold followers
    rw [hr.swapped.rewatches.connectionsOf]
    exact h.alone o
  live := by
    unfold followers
    rw [hr.swapped.rewatches.connectionsOf]
    exact h.live
  deep := by
    obtain ⟨tree, htree⟩ := h.deep
    exact hr.swapped.rewatches.deep_of htree
  free o := by
    rw [hr.swapped.rewatches.keysOf]
    exact h.free o

/-- To write something in an object leaves the deep watch where it is. -/
theorem setStore (h : m.Posted d r p k) {s : Store}
    (hs : ∀ q, .object q ∈ s.values → q < m.objects.size) : (m.setStore o s).Posted d r p k := by
  have hfollowers (q : ObjectId) : (m.setStore o s).followers d q = m.followers d q := by
    unfold followers
    rw [connectionsOf_setStore]
  refine ⟨h.toNoded.aside (fun q => ?_) (fun q => ?_) rfl fun _ _ _ hx => .inl hx,
    fun q q' hq => ?_, fun q => ?_, ?_, h.deep, fun q => ?_⟩
  · exact Nat.le_of_eq (elim_setStore (·.lastId) 0 m o s q).symm
  · rw [menders_setStore]
  · refine Nat.lt_of_lt_of_eq ?_ (size_modifyObject m o _).symm
    rw [store_setStore] at hq
    split at hq
    · exact hs q' hq
    · exact h.whole q q' hq
  · rw [hfollowers]
    exact h.alone q
  · rw [hfollowers]
    exact h.live
  · rw [keysOf_setStore]
    exact h.free q

end Posted

namespace Tended

/-- A deep watch that is tended is connected. -/
theorem posted (h : m.Tended d r p k) : m.Posted d r p k :=
  { h with alone := h.placed.alone }

/-- The property belongs to an object that exists. -/
theorem lt_size (h : m.Tended d r p k) : r < m.objects.size := h.posted.lt_size

/-- A change aside leaves the deep watch tended. -/
theorem aside (h : m.Tended d r p k) (ha : Aside d k m m') : m'.Tended d r p k :=
  { h.posted.aside ha with
    placed := by
      refine h.placed.retains ⟨fun o => ?_, by rw [ha.deep?], ?_, ?_⟩
      · rw [ha.followers]
      · rw [ha.store r h.lt_size]
      · rw [h.free r, ha.keysOf r (h.free r)]
    sole := ha.sole h.sole }

/-- To move or mend the deep watch leaves it tended. -/
theorem regrown (h : m.Tended d r p k) (hr : Regrown d out gone added m m') :
    m'.Tended d r p k :=
  { h.posted.regrown hr with
    placed := h.placed.retains (.of_rewatches hr.swapped.rewatches)
    sole := h.sole.swapped hr.swapped }

/-- To write something in an object leaves the deep watch tended. -/
theorem setStore (h : m.Tended d r p k) {s : Store} (hlist : s.isList = (m.store o).isList)
    (hs : ∀ q, .object q ∈ s.values → q < m.objects.size) : (m.setStore o s).Tended d r p k :=
  { h.posted.setStore hs with
    placed := h.placed.retains (retains_setStore m s hlist)
    sole := by
      refine ⟨fun q c hc => ?_, fun q x hx => ?_, h.sole.deeps⟩
      · rw [connectionsOf_setStore] at hc
        exact h.sole.handlers q c hc
      · rw [watchersOf_setStore] at hx
        exact h.sole.watchers q x hx }

end Tended

/-! ## What the library does to other deep watches -/

/-- Whether a deep watch gave up nodes that it had and took up new ones, and nothing else became of
its tree. -/
def Reshaped (e : DeepId) (m m' : Model) : Prop :=
  ∃ gone added, Swapped e gone added m m' ∧ (∀ x ∈ gone, x ∈ m.watched e) ∧
    ∀ x ∈ m'.watched e, x ∈ m.watched e ∨ x ∈ added

/-- After some watchers were given up a tree is built, or what of it was built before an object lies
too deep. -/
theorem Swapped.attach {levels : Nat} {res : Except Fault WatchTree}
    (h : Swapped e gone [] m m₁) (hwhole : m.Whole) (hq : q < m.objects.size)
    (hattach : Model.attach e levels q (m₁.ensureBinding q) = (res, m₂)) :
    m₂.deeps = m₁.deeps ∧ ∃ added, Swapped e gone added m m₂ ∧
      ∀ t, res = .ok t → added = t.watchers ∧ t.object = q ∧ t.Mirrors m := by
  cases res with
  | error fault =>
    have hensure := grown_ensureBinding e m₁ q
    have hbound : (m₁.ensureBinding q).isBound q = true := by
      refine isBound_ensureBinding_self ?_
      rw [h.rewatches.size]
      exact hq
    obtain ⟨pairs, hgrown, _⟩ := attach_visits
      (hwhole.rewatches (Rewatches.steady.trans h.rewatches hensure.rewatches)) hbound hattach
    exact ⟨hgrown.deeps, pairs, h.grow (hensure.trans hgrown), fun t ht => by cases ht⟩
  | ok t =>
    obtain ⟨hswapped, hdeeps, hobject, hmirrors⟩ := h.attach_of_ok hwhole hq hattach
    refine ⟨hdeeps, t.watchers, hswapped, fun t' ht => ?_⟩
    obtain rfl := Except.ok.inj ht
    exact ⟨rfl, hobject, hmirrors⟩

/-- A deep watch that stays has the nodes that it had. -/
theorem Reshaped.refl (e : DeepId) (m : Model) : Reshaped e m m :=
  ⟨[], [], .refl e m, fun _ hx => (List.not_mem_nil hx).elim, fun _ hx => .inl hx⟩

/-- To move a deep watch reshapes it, also where the value is refused. -/
theorem reshaped_retarget (hwhole : m.Whole) (hv : ∀ q, v = .object q → q < m.objects.size) :
    Reshaped e m (retarget e v m).2 := by
  have hdrop := swapped_dropTree m e
  have hgone : ∀ x ∈ m.watched e, x ∈ m.watched e := fun _ hx => hx
  have hdropped {m' : Model} (hdeeps : m'.deeps = (m.dropTree e).deeps) : m'.watched e = [] := by
    unfold watched
    rw [tree?_congr hdeeps, tree?_dropTree, if_pos rfl]
    rfl
  cases hret : retarget e v m with
  | mk res m' =>
    cases moved_of_retarget hret with
    | stays => exact .refl e m
    | dropped =>
      -- A value that is no object leaves no tree.
      refine ⟨_, [], hdrop, hgone, fun x hx => ?_⟩
      rw [hdropped rfl] at hx
      cases hx
    | refused hvalue hattach =>
      -- Watchers that were added before the refusal stay, but the tree is gone.
      obtain ⟨hdeeps, added, hswapped, _⟩ := hdrop.attach hwhole (hv _ hvalue) hattach
      refine ⟨_, added, hswapped, hgone, fun x hx => ?_⟩
      rw [hdropped hdeeps] at hx
      cases hx
    | @built q t m₁ hvalue hattach =>
      obtain ⟨hswapped, _⟩ := hdrop.attach_of_ok hwhole (hv q hvalue) hattach
      refine ⟨_, t.watchers, hswapped.setTree e (some t), hgone, fun x hx => .inr ?_⟩
      unfold watched at hx
      rw [tree?_setTree, if_pos rfl] at hx
      cases hdeep : m₁.deep? e with
      | none =>
        rw [hdeep] at hx
        cases hx
      | some deep =>
        rw [hdeep] at hx
        exact hx

/-- What is past the end of a list, and what is not, is what was there. -/
theorem mem_of_mem_pastEnd {length : Nat} {children : List (String × WatchTree)}
    {x : String × WatchTree}
    (h : x ∈ (pastEnd length children).1 ∨ x ∈ (pastEnd length children).2) : x ∈ children := by
  unfold pastEnd at h
  rw [List.partition_eq_filter_filter] at h
  rcases h with h | h
  · exact (List.mem_filter.1 h).1
  · exact (List.mem_filter.1 h).1

/-- What is at a key is what was there. -/
theorem mem_of_mem_atKey {children : List (String × WatchTree)} {x : String × WatchTree}
    (h : x ∈ atKey key children) : x ∈ children := by
  unfold atKey at h
  obtain ⟨t, ht, rfl⟩ := Option.map_eq_some_iff.1 (Option.mem_toList.1 h)
  obtain ⟨pre, post, rfl, _⟩ := List.lookup_eq_some_iff.1 ht
  exact List.mem_append_right pre List.mem_cons_self

/-- A deep watch is reshaped when the children of one node are changed: those in `gone` are given
up, and others are taken up only with watchers in `added`. -/
theorem reshaped_of_modify {w : Nat} {t node : WatchTree} {depth : Nat}
    {f : List (String × WatchTree) → List (String × WatchTree)}
    {gone : List (String × WatchTree)} {added : List (ObjectId × Nat)} (ht : m.tree? e = some t)
    (hfind : t.find? o w 1 = some (depth, node))
    (hswapped : Swapped e (gone.flatMap (·.2.watchers)) added m m')
    (hgone : ∀ c ∈ gone, c ∈ node.children) (htree : m'.tree? e = some (t.modify o w f))
    (hf : ∀ children, ∀ c ∈ f children, c ∈ children ∨ ∀ x ∈ c.2.watchers, x ∈ added) :
    Reshaped e m m' := by
  have hwatched := watched_of_tree? ht
  refine ⟨_, added, hswapped, fun x hx => ?_, ?_⟩
  · obtain ⟨c, hc, hx⟩ := List.mem_flatMap.1 hx
    rw [hwatched]
    refine WatchTree.mem_watchers_of_find? hfind x ?_
    obtain ⟨o', w', children⟩ := node
    rw [WatchTree.watchers_node]
    exact List.mem_cons_of_mem _ (List.mem_flatMap.2 ⟨c, hgone c hc, hx⟩)
  · rw [watched_of_tree? htree, hwatched]
    refine WatchTree.forall_watchers_modify (fun _ hx => .inl hx) fun children hall c hc x hx => ?_
    rcases hf children c hc with hc | hadded
    · exact hall c hc x hx
    · exact .inr (hadded x hx)

/-- To mend a deep watch reshapes it, also where the new object is refused. -/
theorem reshaped_mend {w : Nat} (hwhole : m.Whole) (hv : ∀ q, v = .object q → q < m.objects.size) :
    Reshaped e m (mend e o w key v m).2 := by
  have hstay (children : List (String × WatchTree)) (added : List (ObjectId × Nat)) :
      ∀ c ∈ children.filter (·.1 != key), c ∈ children ∨ ∀ x ∈ c.2.watchers, x ∈ added :=
    fun _ hc => .inl (List.mem_filter.1 hc).1
  cases hmend : mend e o w key v m with
  | mk res m' =>
    cases mended_of_mend hmend with
    | absent => exact .refl e m
    | unchanged => exact .refl e m
    | shortened ht hfind =>
      exact reshaped_of_modify ht hfind (swapped_cut m e _ o w _ _)
        (fun c hc => mem_of_mem_pastEnd (.inl hc)) ((tree?_cut ht o w _ _ e).trans (if_pos rfl))
        fun children c hc => .inl (mem_of_mem_pastEnd (.inr hc))
    | removed ht hfind =>
      exact reshaped_of_modify ht hfind (swapped_cut m e _ o w _ _)
        (fun c hc => mem_of_mem_atKey hc) ((tree?_cut ht o w _ _ e).trans (if_pos rfl))
        fun children => hstay children []
    | refused ht hfind _ hvalue hattach =>
      -- The node has lost its child, and what was added before the refusal is in no tree.
      obtain ⟨hdeeps, added, hswapped, _⟩ :=
        (swapped_cut m e _ o w _ _).attach hwhole (hv _ hvalue) hattach
      exact reshaped_of_modify ht hfind hswapped (fun c hc => mem_of_mem_atKey hc)
        (((tree?_congr hdeeps e).trans (tree?_cut ht o w _ _ e)).trans (if_pos rfl))
        fun children => hstay children added
    | @replaced t node new depth child m₁ ht hfind _ hvalue hattach =>
      obtain ⟨hswapped, hdeeps, _⟩ :=
        (swapped_cut m e _ o w _ _).attach_of_ok hwhole (hv _ hvalue) hattach
      refine reshaped_of_modify ht hfind (hswapped.setTree e _) (fun c hc => mem_of_mem_atKey hc)
        ((tree?_replaced ht hdeeps new e).trans (if_pos rfl)) fun children c hc => ?_
      rcases Dict.mem_insertEntry hc with rfl | hc
      · exact .inr fun x hx => hx
      · exact hstay children _ c hc

/-- What the library does to other deep watches is aside. -/
theorem Reshaped.aside (h : m.Noded d) (he : e ≠ d) (hr : Reshaped e m m')
    (hsame : ∀ c, c ≠ e → SameDeep c m m') : Aside d k m m' := by
  obtain ⟨gone, added, hswapped, hgone, hown⟩ := hr
  have hrewatches := hswapped.rewatches
  constructor
  case toExtends => exact hrewatches.extends
  case whole => exact fun hwhole => hwhole.rewatches hrewatches
  case lastIdOf => exact hrewatches.lastIdOf
  case keysOf =>
    intro o ho
    rw [hrewatches.keysOf, ho]
  case followers =>
    intro o
    unfold followers
    rw [hrewatches.connectionsOf]
  case deep? => exact hsame d he.symm
  case sole => exact fun hsole => hsole.swapped hswapped
  case menders =>
    intro o
    obtain ⟨new, hnew, _, hmem⟩ := hswapped.watchersOf o
    unfold menders
    rw [hnew, List.filter_append, List.filter_filter]
    -- None of the new watchers is for the deep watch, and none of its watchers is given up.
    have hnone : new.filter (·.watch = .mend d) = [] := by
      refine List.filter_eq_nil_iff.2 fun x hx hd => he ?_
      have hmend := of_decide_eq_true hd
      rw [((hmem x).1 hx).1] at hmend
      exact Watch.mend.inj hmend
    rw [hnone, List.append_nil]
    refine List.filter_congr fun x hx => ?_
    by_cases hd : x.watch = .mend d
    · have hnode : (o, x.seq) ∈ m.watched d := by
        refine (h.nodes o x.seq).2 ?_
        rw [← hd]
        exact hx
      have hkept : (o, x.seq) ∉ gone := fun hg => (h.apart e he _ (hgone _ hg)).2 hnode
      simp [hd, hkept]
    · simp [hd]
  case others =>
    intro c hc x hx
    by_cases hce : c = e
    · subst hce
      exact (hown x hx).imp_right (hswapped.fresh x)
    · have hwatched : m'.watched c = m.watched c := by
        unfold watched tree?
        rw [hsame c hce]
      rw [hwatched] at hx
      exact .inl hx

end LiveScope.Model
