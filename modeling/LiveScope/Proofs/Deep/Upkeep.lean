import LiveScope.Proofs.Deep.Writing

/-!
# A tree that is kept up is the tree that would be built

A deep watch whose function nothing tells yet mirrors its property when it is set up
(`Upkeep.mirroring_bind`), provided that the tables are in order, as they are in every run
(`Release.orderly_of_moves`). Every operation after that (`Upkeep.Step`) leads from one world where
it mirrors to another: a write by `Mirroring.run_mirroring`, and what others do beside the deep
watch because they leave it alone.

`Upkeep.rebuilt_of_run` is the result. After any number of operations the tree that was mended piece
by piece is the one that would be built now, its nodes are watched once each and nothing else is
watched for it. An operation that changes something tells the function of the deep watch exactly if
it concerns the property.
-/

namespace LiveScope

open Relation (ReflTransGen)

namespace Model

variable {m m' : Model} {d : DeepId} {r o : ObjectId} {p key : String} {k : CallbackId} {V : Value}
  {news : ObjectId → List Connection}

/-! ## What subscribing does to a deep watch -/

/-- Connections that move the deep watch, or tell other functions, leave it alone in telling its
function. -/
theorem Subscribes.sole (hs : Subscribes news m m') (h : m.Sole d k)
    (hnews : ∀ o, ∀ c ∈ news o, m.handlerCallback c.handler = some k → c.handler = .follow d) :
    m'.Sole d k where
  handlers o c hc htells := by
    rw [handlerCallback_congr hs.deeps] at htells
    rw [hs.connectionsOf] at hc
    rcases List.mem_append.1 hc with hc | hc
    · exact h.handlers o c hc htells
    · exact hnews o c hc htells
  watchers o x hx htells := by
    rw [hs.watchersOf] at hx
    refine h.watchers o x hx ?_
    cases hw : x.watch with
    | report callback =>
      rw [hw] at htells
      exact htells
    | mend e =>
      rw [hw] at htells
      exact (handlerCallback_congr hs.deeps (.follow e)).symm.trans htells
  deeps e deep hdeep hk := by
    unfold deep? at hdeep
    rw [hs.deeps] at hdeep
    exact h.deeps e deep hdeep hk

/-- Connections leave a deep watch its nodes. -/
theorem Subscribes.noded (hs : Subscribes news m m') (h : m.Noded d) : m'.Noded d := by
  refine h.aside hs.lastIdOf (fun o => ?_) (watched_congr hs.deeps d) fun e _ x hx => ?_
  · unfold menders
    rw [hs.watchersOf]
  · rw [watched_congr hs.deeps] at hx
    exact .inl hx

/-- To connect handlers that neither move the deep watch nor tell its function is aside. -/
theorem Subscribes.aside (hs : Subscribes news m m')
    (hnews : ∀ o, ∀ c ∈ news o, c.handler.follows d = false ∧
      m.handlerCallback c.handler ≠ some k) : Aside d k m m' where
  size := Nat.le_of_eq hs.size.symm
  store o _ := hs.store o
  whole hwhole o q hq := by
    rw [hs.store] at hq
    rw [hs.size]
    exact hwhole o q hq
  lastIdOf := hs.lastIdOf
  keysOf o ho := (hs.keysOf o).trans ho
  followers o := by
    have hnone : (news o).filter (·.handler.follows d) = [] := by
      refine List.filter_eq_nil_iff.2 fun c hc => ?_
      rw [(hnews o c hc).1]
      exact Bool.false_ne_true
    unfold followers
    rw [hs.connectionsOf, List.filter_append, hnone, List.append_nil]
  menders o := by
    unfold menders
    rw [hs.watchersOf]
  deep? := by
    unfold Model.deep?
    rw [hs.deeps]
  others e _ x hx := by
    rw [watched_congr hs.deeps] at hx
    exact .inl hx
  sole h := hs.sole h fun o c hc htells => absurd htells (hnews o c hc).2

/-- To connect a function of others is aside. -/
theorem aside_connect {k' : CallbackId} (hk : k' ≠ k) (d : DeepId) (m : Model) (o : ObjectId)
    (key : String) : Aside d k m (m.connect o key (.report ⟨k', none⟩)).2 := by
  refine (subscribes_connect m o key _).aside fun q c hc => ?_
  obtain ⟨_, rfl⟩ := mem_newConnection.1 hc
  exact ⟨rfl, fun heq => hk (Option.some.inj heq)⟩

/-- To register a subscription is aside. -/
theorem aside_register (hb : m.isBound o = true) (connections : List (ObjectId × SubscriptionId))
    (deep : Option DeepId) (d : DeepId) (k : CallbackId) :
    Aside d k m (m.register o connections deep).2 := by
  let m' := (m.register o connections deep).2
  have hconnections (q : ObjectId) : m'.connectionsOf q = m.connectionsOf q :=
    elim_modifyBinding (·.connections) (fun _ => by rfl) [] m o q
  have hwatchers (q : ObjectId) : m'.watchersOf q = m.watchersOf q :=
    elim_modifyBinding (·.watchers) (fun _ => by rfl) [] m o q
  have hadds := adds_register hb connections deep k
  refine ⟨⟨Nat.le_of_eq hadds.size.symm, fun q _ => hadds.store q⟩, fun hwhole q q' hq => ?_,
    hadds.lastIdOf, fun q hq => ?_, fun q => ?_, fun q => ?_, rfl, fun e _ x hx => .inl hx,
    fun h => ⟨fun q c hc => ?_, fun q x hx => ?_, h.deeps⟩⟩
  · rw [hadds.store] at hq
    rw [hadds.size]
    exact hwhole q q' hq
  · rw [← hq]
    exact keysOf_modifyBinding (fun _ => by rfl) m o q
  · unfold followers
    rw [hconnections]
  · unfold menders
    rw [hwatchers]
  · rw [hconnections] at hc
    exact h.handlers q c hc
  · rw [hwatchers] at hx
    exact h.watchers q x hx

/-! ## Setting up -/

/-- A deep watch that is not there yet has no nodes and no watchers. -/
theorem Orderly.noded_addDeep (h : m.Orderly) (r : ObjectId) (p : String) (k : CallbackId) :
    (m.addDeep ⟨r, p, k, none⟩).Noded m.deeps.size := by
  let m' := m.addDeep ⟨r, p, k, none⟩
  have hold (e : DeepId) (he : e ≠ m.deeps.size) : m'.watched e = m.watched e := by
    unfold watched tree?
    rw [deep?_addDeep, if_neg he]
  have hwatched : m'.watched m.deeps.size = [] := by
    unfold watched tree?
    rw [deep?_addDeep, if_pos rfl]
    rfl
  -- A watcher that mends belongs to a deep watch that is there.
  have hnone (o : ObjectId) (x : Watcher) (hx : x ∈ m.watchersOf o) :
      x.watch ≠ .mend m.deeps.size := by
    intro hmend
    have hsome := h.mended hx hmend
    rw [deep?_size] at hsome
    cases hsome
  have hmenders (o : ObjectId) : m'.menders m.deeps.size o = [] := by
    refine List.filter_eq_nil_iff.2 fun x hx hmend => ?_
    exact hnone o x hx (of_decide_eq_true hmend)
  constructor
  case nodup =>
    rw [hwatched]
    exact .nil
  case numbered =>
    intro o
    rw [hmenders]
    exact .nil _
  case nodes =>
    intro o n
    rw [hwatched]
    exact iff_of_false List.not_mem_nil fun hmem => hnone o _ hmem rfl
  case apart =>
    intro e he x hx
    rw [hold e he] at hx
    refine ⟨(h.numbered e x hx).1, ?_⟩
    rw [hwatched]
    exact List.not_mem_nil

/-- A deep watch for a function that nothing tells is alone in telling it. -/
theorem Known.sole_addDeep (h : m.Known (· ≠ k)) (r : ObjectId) (p : String) :
    (m.addDeep ⟨r, p, k, none⟩).Sole m.deeps.size k := by
  let m' := m.addDeep ⟨r, p, k, none⟩
  -- Of the deep watches only the new one tells the function.
  have hdeeps (e : DeepId) (htells : m'.handlerCallback (.follow e) = some k) :
      e = m.deeps.size := by
    by_contra he
    rw [handlerCallback_addDeep, if_neg he] at htells
    exact h.deeps e k htells rfl
  constructor
  case handlers =>
    intro o c hc htells
    cases hh : c.handler with
    | report sink =>
      refine absurd rfl (h.handlers o c hc k ?_)
      rw [hh] at htells ⊢
      exact htells
    | recompute field formula =>
      refine absurd rfl (h.handlers o c hc k ?_)
      rw [hh] at htells ⊢
      exact htells
    | follow e =>
      rw [hh] at htells
      rw [hdeeps e htells]
  case watchers =>
    intro o x hx htells
    cases hw : x.watch with
    | report callback =>
      refine absurd rfl (h.watchers o x hx k ?_)
      rw [hw] at htells ⊢
      exact htells
    | mend e =>
      rw [hw] at htells
      rw [hdeeps e htells]
  case deeps =>
    intro e deep hdeep hk
    refine hdeeps e ?_
    rw [handlerCallback_follow hdeep, hk]

/-- A deep watch that is not there yet is connected to nothing. -/
theorem Orderly.followers_new (h : m.Orderly) (o : ObjectId) : m.followers m.deeps.size o = [] := by
  refine List.filter_eq_nil_iff.2 fun c hc hfollows => ?_
  have hsome := h.followed o c hc _ (Handler.eq_follow hfollows)
  rw [deep?_size] at hsome
  cases hsome

/-- A deep watch that is not there yet may be placed anywhere. -/
theorem Orderly.placed_new (h : m.Orderly) (hfree : ∀ o, m.keysOf o = none)
    (hmap : (m.store r).isList = false) (p : String) : m.Placed m.deeps.size r p := by
  refine placed_of_new hmap (fun keys hkeys => ?_) m.deep?_size h.followers_new
  rw [hfree] at hkeys
  cases hkeys

/-- Whether a deep watch, to which nothing needs to be connected yet, has its nodes watched and
mirrors the value of a property. -/
structure Prepared (m : Model) (d : DeepId) (r : ObjectId) (p : String) (k : CallbackId)
    (V : Value) : Prop extends m.Rooted d r p V, m.Noded d where
  /-- All that is referred to exists. -/
  whole : m.Whole
  /-- The deep watch is one of the property, and tells the function. -/
  deep : ∃ tree, m.deep? d = some ⟨r, p, k, tree⟩
  /-- Its tree mirrors what is in its objects. -/
  mirrors : ∀ t ∈ m.tree? d, t.Mirrors m
  /-- All changes of all objects are told of. -/
  free : ∀ o, m.keysOf o = none

/-- A new deep watch, when it is moved to the value of its property. -/
theorem Orderly.prepared (h : m.Orderly) (hfree : ∀ o, m.keysOf o = none)
    (hret : retarget m.deeps.size (m.get r p) (m.addDeep ⟨r, p, k, none⟩) = (.ok (), m')) :
    m'.Prepared m.deeps.size r p k (m.get r p) := by
  let a := m.addDeep ⟨r, p, k, none⟩
  have hdeep : a.deep? m.deeps.size = some ⟨r, p, k, none⟩ := by
    rw [deep?_addDeep, if_pos rfl]
  have hsome : (a.deep? m.deeps.size).isSome = true := Option.isSome_of_eq_some hdeep
  have hnone : a.tree? m.deeps.size = none := by
    unfold tree?
    rw [hdeep]
    rfl
  have hwhole : a.Whole := h.whole
  have hexist : ∀ q, m.get r p = .object q → q < a.objects.size := fun q hq =>
    h.whole r q (Store.get_mem_values hq)
  have hmoved : a.Rewatches m' := (rewatches_retarget _ _).of_run hret
  have hregrown := regrown_retarget hwhole hsome hexist hret
  constructor
  case toRooted =>
    refine ⟨congrArg (·.get p) (hmoved.store r), fun q hq => ?_, watchedRoot_retarget hsome hret⟩
    rw [hq] at hret
    -- Without a tree before, whether the value is admitted is a matter of its depth alone.
    have hbare : ∀ t ∈ a.tree? m.deeps.size, a.Within maxDepth t.object := by
      rw [hnone]
      exact nofun
    have hwithin := within_of_retarget hwhole (hexist q hq) hbare hret
    exact hwithin.of_grown hwhole (fun q _ => hmoved.store q) (hexist q hq)
  case toNoded =>
    have hnoded : a.Noded m.deeps.size := h.noded_addDeep r p k
    rcases hregrown with rfl | ⟨gone, added, hregrown⟩
    · exact hnoded
    · exact hnoded.regrown hregrown
  case whole => exact hwhole.rewatches hmoved
  case deep => exact hmoved.deep_of hdeep
  case mirrors =>
    intro t ht
    refine mirrors_congr hmoved.store ?_
    rcases retarget_of_ok hwhole hsome hexist hret with ⟨_, t', ht', _⟩ |
      ⟨_, ⟨_, ht', _⟩ | ⟨t', ht', _, hmirrors, _⟩⟩
    · -- The deep watch cannot have stayed where it was.
      rw [hnone] at ht'
      cases ht'
    · rw [ht'] at ht
      cases ht
    · rw [ht'] at ht
      obtain rfl := Option.some.inj ht
      exact hmirrors
  case free =>
    intro o
    rw [hmoved.keysOf]
    exact hfree o

/-- A deep watch that is prepared is attached to its property as soon as it is connected to it. -/
theorem Prepared.attached (h : m.Prepared d r p k V) (hs : Subscribes news m m')
    (halone : ∀ o, ∀ c ∈ m'.followers d o, o = r ∧ c.key = p) (hlive : m'.followers d r ≠ []) :
    m'.Attached d r p k V := by
  have hdeep? : m'.deep? d = m.deep? d := by
    unfold deep?
    rw [hs.deeps]
  have htree? : m'.tree? d = m.tree? d := tree?_congr hs.deeps d
  have hwhole : m'.Whole := by
    intro o q hq
    rw [hs.store] at hq
    rw [hs.size]
    exact h.whole o q hq
  constructor
  case toRooted =>
    constructor
    case value => exact (congrArg (·.get p) (hs.store r)).trans h.value
    case within =>
      intro q hq
      exact (h.within q hq).of_grown h.whole (fun q _ => hs.store q) (h.lt_size h.whole hq)
    case root =>
      unfold watchedRoot
      rw [htree?]
      exact h.root
  case toPosted =>
    refine ⟨hs.noded h.toNoded, hwhole, halone, hlive, ?_, fun o => ?_⟩
    · rw [hdeep?]
      exact h.deep
    · rw [hs.keysOf]
      exact h.free o
  case mirrors =>
    intro t ht
    rw [htree?] at ht
    exact mirrors_congr hs.store (h.mirrors t ht)

/-- A deep watch that is set up is attached to its property. -/
theorem attached_bindDeep {n : ScopedName} {id : Nat} (h : m.Orderly)
    (hfree : ∀ o, m.keysOf o = none) (hbound : m.isBound o = true)
    (hbind : bindDeep o n k m = (.ok (id, r, V), m')) :
    m'.Attached m.deeps.size r n.name k V := by
  obtain ⟨a, b, connections, hres, rfl, hret, rfl⟩ := Following.bindDeep_of_ok hbind
  have hresolve := subscribes_resolve hres
  have ha : a.Orderly := (hresolve.eases h m.knows_all).orderly
  have hafree : ∀ q, a.keysOf q = none := fun q => (hresolve.keysOf q).trans (hfree q)
  rw [← hresolve.deeps]
  let d := a.deeps.size
  have hprepared : b.Prepared d r n.name k (a.get r n.name) := ha.prepared hafree hret
  have hmoved : (a.addDeep ⟨r, n.name, k, none⟩).Rewatches b :=
    (rewatches_retarget _ _).of_run hret
  -- The deep watch is connected.
  let c := (b.connect r n.name (.follow d)).2
  have hconnect : Subscribes _ b c := subscribes_connect b r n.name (.follow d)
  have hfollowers : ∀ q, ∀ x ∈ c.followers d q, x ∈ b.newConnection r n.name (.follow d) q := by
    intro q x hx
    obtain ⟨hx, hfollows⟩ := List.mem_filter.1 hx
    rw [hconnect.connectionsOf] at hx
    refine (List.mem_append.1 hx).resolve_left fun hx => ?_
    rw [hmoved.connectionsOf] at hx
    exact List.ne_nil_of_mem (List.mem_filter.2 ⟨hx, hfollows⟩) (ha.followers_new q)
  have halone : ∀ q, ∀ x ∈ c.followers d q, q = r ∧ x.key = n.name := by
    intro q x hx
    obtain ⟨⟨hq, _⟩, rfl⟩ := mem_newConnection.1 (hfollowers q x hx)
    exact ⟨hq, rfl⟩
  have hlive : c.followers d r ≠ [] := by
    have hbr : b.isBound r = true :=
      hmoved.isBound r (show a.isBound r = true from isBound_of_resolve h.whole hbound hres)
    have hmem : ⟨b.nextId r, n.name, .follow d⟩ ∈ c.connectionsOf r := by
      rw [hconnect.connectionsOf]
      exact List.mem_append_right _ (mem_newConnection.2 ⟨⟨rfl, hbr⟩, rfl⟩)
    exact List.ne_nil_of_mem (List.mem_filter.2 ⟨hmem, beq_self_eq_true d⟩)
  -- What is registered after that does not matter to it.
  have hregister := aside_register
    (hconnect.isBound o (hmoved.isBound o (hresolve.isBound o hbound))) connections (some d) d k
  exact (hprepared.attached hconnect halone hlive).aside hregister

/-- A deep watch that is set up for a function that nothing tells is alone in telling it. -/
theorem sole_bindDeep {n : ScopedName} {id : Nat} (h : m.Orderly) (hnew : m.Known (· ≠ k))
    (hbound : m.isBound o = true) (hbind : bindDeep o n k m = (.ok (id, r, V), m')) :
    m'.Sole m.deeps.size k := by
  obtain ⟨a, b, connections, hres, rfl, hret, rfl⟩ := Following.bindDeep_of_ok hbind
  have hresolve := subscribes_resolve hres
  obtain ⟨ha, hanew, _, _⟩ := hresolve.eases h hnew
  rw [← hresolve.deeps]
  let a' := a.addDeep ⟨r, n.name, k, none⟩
  have hsome : (a'.deep? a.deeps.size).isSome = true := by
    rw [deep?_addDeep, if_pos rfl]
    rfl
  have hmoved : a'.Rewatches b := (rewatches_retarget _ _).of_run hret
  have hnew' : a'.Sole a.deeps.size k := hanew.sole_addDeep r n.name
  have hsole : b.Sole a.deeps.size k := by
    rcases regrown_retarget (m := a') ha.whole hsome
      (fun q hq => ha.whole r q (Store.get_mem_values hq)) hret with rfl | ⟨_, _, hregrown⟩
    · exact hnew'
    · exact hnew'.swapped hregrown.swapped
  have hconnect := subscribes_connect b r n.name (.follow a.deeps.size)
  have hregister := aside_register
    (hconnect.isBound o (hmoved.isBound o (hresolve.isBound o hbound))) connections
    (some a.deeps.size) a.deeps.size k
  refine hregister.sole (hconnect.sole hsole fun q x hx _ => ?_)
  rw [(mem_newConnection.1 hx).2]

/-- If the property belongs to a map, the deep watch mirrors it. -/
theorem mirroring_bindDeep {n : ScopedName} {id : Nat} (h : m.Orderly) (hnew : m.Known (· ≠ k))
    (hfree : ∀ o, m.keysOf o = none) (hbound : m.isBound o = true)
    (hmap : (m.store r).isList = false) (hbind : bindDeep o n k m = (.ok (id, r, V), m')) :
    m'.Mirroring m.deeps.size r n.name k V := by
  obtain ⟨hplaced, _⟩ := Following.placed_bindDeep (h.placed_new hfree hmap n.name) hbind
  have hattached := attached_bindDeep h hfree hbound hbind
  exact { hattached.toRooted with
    tended := { hattached.toPosted with
      placed := hplaced, sole := sole_bindDeep h hnew hbound hbind }
    mirrors := hattached.mirrors }

/-! ## What is kept up -/

/-- Whether the tree of a deep watch is the one that would be built now for a value, each of its
nodes is watched once, and nothing else is watched for it. -/
structure UpToDate (m : Model) (d : DeepId) (V : Value) : Prop where
  /-- The tree, without the numbers of its nodes, is what would be built. -/
  tree : m.rebuilt d V = .ok ((m.tree? d).map (·.bare))
  /-- The watchers that mend the deep watch are its nodes. -/
  nodes : ∀ o n, (o, n) ∈ m.watched d ↔ ⟨n, .mend d⟩ ∈ m.watchersOf o
  /-- No node occurs twice. -/
  nodup : (m.watched d).Nodup
  /-- No two of these watchers of an object have the same number. -/
  once : ∀ o, ((m.menders d o).map (·.seq)).Nodup

/-- A deep watch that mirrors its property is up to date. -/
theorem Mirroring.upToDate (h : m.Mirroring d r p k V) : m.UpToDate d V where
  tree := by
    refine rebuilt_eq h.tended.whole (fun q hq => ?_) h.root h.mirrors
    exact ⟨h.lt_size h.tended.whole hq, h.within q hq⟩
  nodes := h.tended.nodes
  nodup := h.tended.nodup
  once o := (h.tended.numbered o).ascending.imp Nat.ne_of_lt

end Model

namespace Upkeep

variable {d : DeepId} {r o : ObjectId} {p : String} {n : ScopedName} {k : CallbackId} {id : Nat}
  {listen : Listener History} {w w₀ w₁ : World History}

/-- A deep watch that is set up mirrors its property, whatever its function does when it is told
the value, as long as it leaves the deep watch alone. -/
theorem mirroring_bind (hbinds : Scope.bindObject listen o n k w₀ = (.ok id, w₁))
    (h : w₀.model.Orderly) (hnew : w₀.model.Known (· ≠ k)) (hfree : ∀ o, w₀.model.keysOf o = none)
    (hbound : w₀.model.isBound o = true) (howner : (Model.resolve o n w₀.model).1 = .ok r)
    (hmap : (w₀.model.store r).isList = false)
    (hlisten : listen.Passive w₀.model.deeps.size r n.name k) :
    ∃ V, w₁.model.Mirroring w₀.model.deeps.size r n.name k V := by
  obtain ⟨V, m, hbind, rfl⟩ := Following.bindObject_of_ok howner hbinds
  have hmirroring := Model.mirroring_bindDeep h hnew hfree hbound hmap hbind
  obtain ⟨haside, _⟩ := Mirroring.tell_holding (w := { w₀ with model := m }) hlisten
    hmirroring.tended (.object o :: .object r :: V.holds) V
  exact ⟨V, hmirroring.aside haside⟩

/-- An operation after a deep watch is set up. -/
inductive Step (d : DeepId) (r : ObjectId) (p : String) (k : CallbackId) :
    World History → World History → Prop
  /-- A write that the deep watch can follow, by a client that leaves it alone. -/
  | write {listen : Listener History} {o : ObjectId} {op : Operation} {w : World History}
      (passive : listen.Passive d r p k) (allowed : op.Allowed r p listen o w) :
      Step d r p k w (op.run listen o w)
  /-- What others do beside the deep watch. -/
  | other {w w' : World History} (passive : World.Passive d k w w') : Step d r p k w w'

/-- A deep watch that mirrors its property goes on to do so. -/
theorem mirroring_run {V : Value} (h : w.model.Mirroring d r p k V) {w' : World History}
    (run : ReflTransGen (Step d r p k) w w') : ∃ V', w'.model.Mirroring d r p k V' := by
  induction run with
  | refl => exact ⟨V, h⟩
  | tail _ step ih =>
    obtain ⟨V', hmirroring⟩ := ih
    cases step with
    | write passive allowed =>
      obtain ⟨V'', hmirroring', _⟩ := Mirroring.run_mirroring passive hmirroring allowed
      exact ⟨V'', hmirroring'⟩
    | other passive => exact ⟨V', hmirroring.aside passive.aside⟩

/-- After a deep watch was set up and any number of operations were performed, its tree is the one
that would be built now for the value of the property. An operation that changes something then
tells the function of the deep watch the value that the property has, exactly if it writes the
property or its object could be reached from the value. -/
theorem rebuilt_of_run (hbinds : Scope.bindObject listen o n k w₀ = (.ok id, w₁))
    (h : w₀.model.Orderly) (hnew : w₀.model.Known (· ≠ k)) (hfree : ∀ o, w₀.model.keysOf o = none)
    (hbound : w₀.model.isBound o = true) (howner : (Model.resolve o n w₀.model).1 = .ok r)
    (hmap : (w₀.model.store r).isList = false)
    (hlisten : listen.Passive w₀.model.deeps.size r n.name k)
    (run : ReflTransGen (Step w₀.model.deeps.size r n.name k) w₁ w) :
    w.model.UpToDate w₀.model.deeps.size (w.model.get r n.name) ∧
      ∀ (listen : Listener History) (o : ObjectId) (op : Operation) (μ : Mutation),
        listen.Passive w₀.model.deeps.size r n.name k → op.Allowed r n.name listen o w →
        op.mutation? w.model o = .ok μ → μ.announcements ≠ [] →
        World.Hears k ((op.run listen o w).model.get r n.name) (op.Concerns r n.name o w) w
          (op.run listen o w) := by
  obtain ⟨V₁, hbegun⟩ := mirroring_bind hbinds h hnew hfree hbound howner hmap hlisten
  obtain ⟨V, hmirroring⟩ := mirroring_run hbegun run
  constructor
  · rw [hmirroring.value]
    exact hmirroring.upToDate
  · intro listen' o' op μ hpassive hallowed hμ htells
    obtain ⟨V', hmirroring', hheard⟩ := Mirroring.run_mirroring hpassive hmirroring hallowed
    rw [hmirroring'.value]
    exact hheard μ hμ htells

/-- A client that only listens leaves every deep watch alone. -/
theorem passive_quiet (d : DeepId) (r : ObjectId) (p : String) (k : CallbackId) :
    Listener.Passive d r p k Following.quiet :=
  fun n u _ => (World.Passive.steady d k).refl (u.record (.told n))

/-- A client that only listens gives up nothing. -/
theorem keeps_quiet (h : Hold) (n : Notice) (u : World History) :
    World.Keeps h u (Following.quiet n u) :=
  ⟨Nat.le_refl _, Nat.le_refl _⟩

/-- A list that has the same object twice, at a property of another object. -/
def board : Model :=
  { objects := #[⟨.map (Dict.ofList [("p", .object 1)]), some {}⟩,
      ⟨.list [.object 2, .object 2], none⟩, ⟨.map Dict.empty, none⟩]
    holds := [.object 0] }

/-- The board when the property is watched for the function 0. -/
def boardBound : World History := (Scope.bindObject Following.quiet 0 ⟨0, "p"⟩ 0 ⟨board, []⟩).2

/-- The board when the function 1 is connected to the property after that. -/
def boardWatched : World History :=
  { boardBound with model := (boardBound.model.connect 0 "p" (.report ⟨1, none⟩)).2 }

/-- The board when one of the two elements of the list was taken off. -/
def boardPopped : World History := Operation.pop.run Following.quiet 1 boardWatched

/-- Nothing is subscribed to the board. -/
theorem board_unsubscribed : board.Orderly ∧ board.Known (· ≠ 0) ∧ ∀ o, board.keysOf o = none := by
  have hobjects (p : ObjectId → Prop) (h₀ : p 0) (h₁ : p 1) (h₂ : p 2) (h : ∀ o, p (o + 3))
      (o : ObjectId) : p o :=
    match o with
    | 0 => h₀
    | 1 => h₁
    | 2 => h₂
    | o + 3 => h o
  have hwhole : board.Whole := by
    refine hobjects _ (fun q hq => ?_) (fun q hq => ?_) (fun q hq => ?_) fun o q hq => ?_
    · obtain rfl := Value.object.inj (List.mem_singleton.1 hq)
      decide
    · have hq' : q = 2 := by
        rcases List.mem_cons.1 hq with hq | hq
        · exact Value.object.inj hq
        · exact Value.object.inj (List.mem_singleton.1 hq)
      rw [hq']
      decide
    · cases hq
    · cases hq
  have hconnections : ∀ o, board.connectionsOf o = [] := hobjects _ rfl rfl rfl fun _ => rfl
  have hwatchers : ∀ o, board.watchersOf o = [] := hobjects _ rfl rfl rfl fun _ => rfl
  have hregistrations : ∀ o, board.registrationsOf o = [] := hobjects _ rfl rfl rfl fun _ => rfl
  refine ⟨.of_unsubscribed hwhole hconnections hwatchers hregistrations rfl, ⟨?_, ?_, ?_⟩, ?_⟩
  · intro o c hc
    rw [hconnections] at hc
    cases hc
  · intro o x hx
    rw [hwatchers] at hx
    cases hx
  · intro d k hk
    cases hk
  · exact hobjects _ rfl rfl rfl fun _ => rfl

/-- To take an element off the list is an operation that the deep watch can follow. -/
theorem allowed_pop : Operation.pop.Allowed 0 "p" Following.quiet 1 boardWatched where
  exist := by decide
  known q hq := by cases hq
  spelled items hitems := by
    obtain rfl : [.object 2, .object 2] = items := Store.list.inj hitems
    refine ⟨by decide, fun key hkey => ?_⟩
    cases hkey
  within μ hμ q hq := by
    obtain rfl := Except.ok.inj hμ
    obtain rfl : 1 = q := Value.object.inj hq
    exact (Model.visits_done_iff _ maxDepth 1).1 rfl
  alive _ μ _ told a _ :=
    Operation.alive_of_held (keeps_quiet _) List.mem_cons_self (by decide) μ told a

/-- And so is to write the element that is left. -/
theorem allowed_set :
    (Operation.set "x" .null).Allowed 0 "p" Following.quiet 2 boardPopped where
  exist := by decide
  known q hq := by cases hq
  spelled items hitems := by cases hitems
  within μ hμ q hq := by
    obtain rfl := Except.ok.inj hμ
    obtain rfl : 1 = q := Value.object.inj hq
    exact (Model.visits_done_iff _ maxDepth 1).1 rfl
  alive _ μ _ told a _ :=
    Operation.alive_of_held (keeps_quiet _) List.mem_cons_self (by decide) μ told a

/-- The other element is the same object, so that the tree is the one that would be built, and the
function is told when that object is written. -/
theorem rebuilt_of_run_board : boardPopped.model.UpToDate 0 (.object 1) ∧
    World.Hears 0 (.object 1) True boardPopped
      ((Operation.set "x" .null).run Following.quiet 2 boardPopped) := by
  obtain ⟨horderly, hnew, hfree⟩ := board_unsubscribed
  obtain ⟨id, hbinds⟩ : ∃ id, Scope.bindObject Following.quiet 0 ⟨0, "p"⟩ 0 ⟨board, []⟩ =
      (.ok id, boardBound) := Act.ok_of_isOk (by decide +kernel)
  have hconnect : Model.Aside 0 0 boardBound.model boardWatched.model :=
    Model.aside_connect (by decide) 0 boardBound.model 0 "p"
  have hother : Step 0 0 "p" 0 boardBound boardWatched := .other (.of_aside hconnect)
  have hquiet := passive_quiet 0 0 "p" 0
  have hpop : Step 0 0 "p" 0 boardWatched boardPopped := .write hquiet allowed_pop
  have howner : (Model.resolve 0 ⟨0, "p"⟩ board).1 = .ok 0 := rfl
  obtain ⟨hcurrent, htells⟩ := rebuilt_of_run hbinds horderly hnew hfree rfl howner rfl hquiet
    (.head hother (.single hpop))
  have hheard := htells Following.quiet 2 (.set "x" .null) _ hquiet allowed_set rfl
    (List.cons_ne_nil _ _)
  have hvalue : ((Operation.set "x" .null).run Following.quiet 2 boardPopped).model.get 0 "p" =
      .object 1 := rfl
  have hstore : boardPopped.model.store 1 = .list [.object 2] := rfl
  have hcontains : boardPopped.model.Contains 1 2 := by
    unfold Model.Contains
    rw [hstore]
    exact List.mem_cons_self
  have hconcerns : (Operation.set "x" .null).Concerns 0 "p" 2 boardPopped :=
    .inr ⟨1, rfl, .single hcontains⟩
  rw [hvalue] at hheard
  exact ⟨hcurrent, hheard.congr (iff_of_true hconcerns trivial)⟩

end Upkeep

end LiveScope
