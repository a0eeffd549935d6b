import LiveScope.Proofs.Model.Subscribing
import LiveScope.Proofs.Release.Undoing
import LiveScope.Proofs.World.Binding

/-!
# What subscribing adds

A function is subscribed in one of the ways of `Subscription`. If it was unknown before, all that is
added tells it alone (`Model.Adds`), known functions are told by what told them before, and either a
registration covers the function in the end, or it is told by one object alone
(`Model.Subscribed`).
-/

namespace LiveScope

namespace Model

variable {m m' m'' : Model} {known : CallbackId → Prop} {k : CallbackId}

/-! ## Changes that add for one function -/

/-- What becomes of a model when something is added for a function. -/
structure Gained (known : CallbackId → Prop) (k : CallbackId) (m m' : Model) : Prop where
  /-- The tables are in order. -/
  orderly : m'.Orderly
  /-- No function is told but known ones and this one. -/
  knows : m'.Known fun k' => known k' ∨ k' = k
  /-- What is so of the known functions stays so. -/
  persists : Persists known m m'

/-- Whether a change adds for one function only and leaves the tables in order. -/
def Gains (known : CallbackId → Prop) (k : CallbackId) (m m' : Model) : Prop :=
  m.Orderly → (m.Known fun k' => known k' ∨ k' = k) → Gained known k m m'

/-- Any number of such changes is one. -/
theorem Gains.steady (known : CallbackId → Prop) (k : CallbackId) : Steady (Gains known k) where
  refl m h hknows := ⟨h, hknows, .refl known m⟩
  trans hab hbc h hknows := by
    have hb := hab h hknows
    have hc := hbc hb.orderly hb.knows
    exact ⟨hc.orderly, hc.knows, hb.persists.trans hc.persists fun _ hk => hk⟩

/-- A change that subscribes nothing adds for no function. -/
theorem Eases.gains (h : Eases (fun k' => known k' ∨ k' = k) m m') : Gains known k m m' := by
  intro horderly hknows
  obtain ⟨horderly', hknows', hpersists, _⟩ := h horderly hknows
  refine ⟨horderly', hknows', ?_⟩
  exact (Persists.refl known m).trans hpersists fun _ hk => .inl hk

/-- `m'` has entries at the end of its tables beside those of `m`, with new numbers, all for one
function. -/
structure Adds (k : CallbackId) (m m' : Model) : Prop where
  /-- There are the same objects. -/
  size : m'.objects.size = m.objects.size
  /-- The deep watches are the same. -/
  deeps : m'.deeps = m.deeps
  /-- All content is the same. -/
  store : ∀ o, m'.store o = m.store o
  /-- Numbers that were given out stay given out. -/
  lastIdOf : ∀ o, m.lastIdOf o ≤ m'.lastIdOf o
  /-- New connections stand behind the old ones, with new numbers, and tell the function. -/
  connections : ∀ o, ∃ new, m'.connectionsOf o = m.connectionsOf o ++ new ∧
    new.Pairwise (·.seq < ·.seq) ∧ ∀ c ∈ new, (m.lastIdOf o < c.seq ∧ c.seq ≤ m'.lastIdOf o) ∧
      m.handlerCallback c.handler = some k
  /-- So do new watchers. -/
  watchers : ∀ o, ∃ new, m'.watchersOf o = m.watchersOf o ++ new ∧
    new.Pairwise (·.seq < ·.seq) ∧ ∀ x ∈ new, (m.lastIdOf o < x.seq ∧ x.seq ≤ m'.lastIdOf o) ∧
      x.watch = .report k
  /-- New registrations stand behind the old ones, with new numbers. -/
  registrations : ∀ o, ∃ new, m'.registrationsOf o = m.registrationsOf o ++ new ∧
    new.Pairwise (·.id < ·.id) ∧ ∀ r ∈ new, m.lastIdOf o < r.id ∧ r.id ≤ m'.lastIdOf o

/-- What is the same among the deep watches is told to the same functions. -/
theorem handlerCallback_congr (h : m'.deeps = m.deeps) (handler : Handler) :
    m'.handlerCallback handler = m.handlerCallback handler := by
  unfold handlerCallback deep?
  rw [h]

namespace Adds

/-- An entry of a table was there before or is new. -/
theorem cases_connections (h : Adds k m m') {o : ObjectId} {c : Connection}
    (hc : c ∈ m'.connectionsOf o) : c ∈ m.connectionsOf o ∨
      m.lastIdOf o < c.seq ∧ m.handlerCallback c.handler = some k := by
  obtain ⟨new, hnew, _, hfresh⟩ := h.connections o
  rw [hnew] at hc
  exact (List.mem_append.1 hc).imp_right fun hc => ⟨(hfresh c hc).1.1, (hfresh c hc).2⟩

/-- A watcher was there before or is new. -/
theorem cases_watchers (h : Adds k m m') {o : ObjectId} {x : Watcher}
    (hx : x ∈ m'.watchersOf o) : x ∈ m.watchersOf o ∨
      m.lastIdOf o < x.seq ∧ x.watch = .report k := by
  obtain ⟨new, hnew, _, hfresh⟩ := h.watchers o
  rw [hnew] at hx
  exact (List.mem_append.1 hx).imp_right fun hx => ⟨(hfresh x hx).1.1, (hfresh x hx).2⟩

/-- What is added for a function tells no other one. -/
theorem tends (h : Adds k m m') (hk : ¬ known k) : Tends known m m' where
  size := Nat.le_of_eq h.size.symm
  connections o c hc := by
    refine (h.cases_connections hc).imp_right fun ⟨hfresh, htells⟩ => ⟨hfresh, ?_⟩
    intro k' hk' htells'
    rw [handlerCallback_congr h.deeps, htells] at htells'
    exact hk (Option.some.inj htells' ▸ hk')
  watchers o x hx := by
    refine (h.cases_watchers hx).imp_right fun ⟨hfresh, htells⟩ => ⟨hfresh, ?_⟩
    intro k' hk' htells'
    rw [htells] at htells'
    exact absurd (Option.some.inj htells' ▸ hk') hk
  registrations o r hr := by
    obtain ⟨new, hnew, _, hfresh⟩ := h.registrations o
    rw [hnew] at hr
    exact (List.mem_append.1 hr).imp_right fun hr => (hfresh r hr).1
  lastIdOf := h.lastIdOf
  deeps d k' hd := (handlerCallback_congr h.deeps _).trans hd
  newDeeps d k' _ hd := (handlerCallback_congr h.deeps _).symm.trans hd

/-- What is added for a function leaves the tables in order. -/
theorem orderly (hadds : Adds k m m') (h : m.Orderly) : m'.Orderly where
  whole o q hq := by
    rw [hadds.store] at hq
    rw [hadds.size]
    exact h.whole o q hq
  connections o := by
    obtain ⟨new, hnew, hasc, hfresh⟩ := hadds.connections o
    rw [hnew, List.map_append]
    refine (h.connections o).append (hadds.lastIdOf o) (List.pairwise_map.2 hasc) fun n hn => ?_
    obtain ⟨c, hc, rfl⟩ := List.mem_map.1 hn
    exact (hfresh c hc).1
  watchers o := by
    obtain ⟨new, hnew, hasc, hfresh⟩ := hadds.watchers o
    rw [hnew, List.map_append]
    refine (h.watchers o).append (hadds.lastIdOf o) (List.pairwise_map.2 hasc) fun n hn => ?_
    obtain ⟨x, hx, rfl⟩ := List.mem_map.1 hn
    exact (hfresh x hx).1
  registrations o := by
    obtain ⟨new, hnew, hasc, hfresh⟩ := hadds.registrations o
    rw [hnew, List.map_append]
    refine (h.registrations o).append (hadds.lastIdOf o) (List.pairwise_map.2 hasc) fun n hn => ?_
    obtain ⟨r, hr, rfl⟩ := List.mem_map.1 hn
    exact hfresh r hr
  followed o c hc d hd := by
    unfold deep?
    rw [hadds.deeps]
    rcases hadds.cases_connections hc with hc | ⟨_, htells⟩
    · exact h.followed o c hc d hd
    · rw [hd] at htells
      obtain ⟨deep, hdeep, _⟩ := Option.map_eq_some_iff.1 htells
      exact Option.isSome_of_eq_some hdeep
  nodup d := by
    rw [watched_congr hadds.deeps]
    exact h.nodup d
  keyed d t ht := by
    rw [tree?_congr hadds.deeps] at ht
    exact h.keyed d t ht
  numbered d x hx := by
    rw [watched_congr hadds.deeps] at hx
    obtain ⟨hle, hmend⟩ := h.numbered d x hx
    refine ⟨Nat.le_trans hle (hadds.lastIdOf x.1), fun y hy heq => ?_⟩
    rcases hadds.cases_watchers hy with hy | ⟨hlt, _⟩
    · exact hmend y hy heq
    · omega
  covered o x hx d hd := by
    rw [watched_congr hadds.deeps]
    rcases hadds.cases_watchers hx with hx | ⟨_, hreport⟩
    · exact h.covered o x hx d hd
    · rw [hd] at hreport
      cases hreport

/-- What is added for a function is a gain. -/
theorem gains (h : Adds k m m') (hk : ¬ known k) : Gains known k m m' := by
  intro horderly hknows
  have ht : Tends known m m' := h.tends hk
  refine ⟨h.orderly horderly, ⟨fun o c hc k' hk' => ?_, fun o x hx k' hk' => ?_,
    fun d k' hk' => hknows.deeps d k' ((handlerCallback_congr h.deeps _).symm.trans hk')⟩,
    ht.persists horderly⟩
  · rw [handlerCallback_congr h.deeps] at hk'
    rcases h.cases_connections hc with hc | ⟨_, htells⟩
    · exact hknows.handlers o c hc k' hk'
    · exact .inr (Option.some.inj (hk'.symm.trans htells))
  · rcases h.cases_watchers hx with hx | ⟨_, hreport⟩
    · rw [ht.watchCallback_eq horderly hx] at hk'
      exact hknows.watchers o x hx k' hk'
    · rw [hreport] at hk'
      exact .inr (Option.some.inj hk').symm

end Adds

/-- Connections for a function add for it. -/
theorem Subscribes.adds {news : ObjectId → List Connection} (h : Subscribes news m m')
    (hk : ∀ o, ∀ c ∈ news o, m.handlerCallback c.handler = some k) : Adds k m m' where
  size := h.size
  deeps := h.deeps
  store := h.store
  lastIdOf := h.lastIdOf
  connections o :=
    ⟨news o, h.connectionsOf o, h.ascending o, fun c hc => ⟨h.fresh o c hc, hk o c hc⟩⟩
  watchers o := ⟨[], by rw [h.watchersOf, List.append_nil], .nil, fun x hx => by cases hx⟩
  registrations o := ⟨[], by rw [h.registrationsOf, List.append_nil], .nil, fun r hr => by cases hr⟩

/-- Giving objects bindings subscribes nothing. -/
theorem Subscribes.eases (h : Subscribes (fun _ => []) m m') : Eases known m m' := by
  refine .fewer (Nat.le_of_eq h.size.symm) (fun hwhole o q hq => ?_) h.deeps (fun o => ?_)
    (fun o => ?_) (fun o => ?_) h.lastIdOf
  · rw [h.store] at hq
    rw [h.size]
    exact hwhole o q hq
  · rw [h.connectionsOf, List.append_nil]
  · rw [h.watchersOf]
  · rw [h.registrationsOf]

/-- A watcher for a function adds for it. -/
theorem adds_watch (m : Model) (o : ObjectId) (k : CallbackId) :
    Adds k m (m.watch o (.report k)).2 := by
  have hr := rewatches_watch m o (.report k)
  refine ⟨hr.size, rfl, hr.store, hr.lastIdOf, fun p => ?_, fun p => ?_, fun p => ?_⟩
  · exact ⟨[], by rw [hr.connectionsOf, List.append_nil], .nil, fun c hc => by cases hc⟩
  · by_cases hb : m.isBound o = true
    · rw [watchersOf_watch hb, lastIdOf_watch hb]
      by_cases hp : p = o
      · subst hp
        rw [if_pos rfl, if_pos rfl, nextId_eq]
        refine ⟨_, rfl, List.pairwise_singleton _ _, fun x hx => ?_⟩
        obtain rfl := List.mem_singleton.1 hx
        exact ⟨⟨Nat.lt_succ_self _, Nat.le_refl _⟩, rfl⟩
      · rw [if_neg hp]
        exact ⟨[], (List.append_nil _).symm, .nil, fun x hx => by cases hx⟩
    · unfold Model.watchersOf
      rw [watch_of_not_isBound hb]
      exact ⟨[], (List.append_nil _).symm, .nil, fun x hx => by cases hx⟩
  · exact ⟨[], by rw [hr.registrationsOf, List.append_nil], .nil, fun r hr => by cases hr⟩

/-- What follows a new deep watch tells its function. -/
theorem handlerCallback_addDeep (m : Model) (deep : DeepWatch) (d : DeepId) :
    (m.addDeep deep).handlerCallback (.follow d) =
      if d = m.deeps.size then some deep.callback else m.handlerCallback (.follow d) := by
  unfold handlerCallback
  dsimp only
  rw [deep?_addDeep]
  split <;> rfl

/-- A deep watch that is not there yet is no deep watch. -/
theorem deep?_size (m : Model) : m.deep? m.deeps.size = none :=
  Array.getElem?_eq_none (Nat.le_refl _)

/-- A new deep watch has no tree yet. -/
theorem tree?_addDeep (m : Model) (owner : ObjectId) (key : String) (k : CallbackId) (d : DeepId) :
    (m.addDeep ⟨owner, key, k, none⟩).tree? d = m.tree? d := by
  unfold tree?
  rw [deep?_addDeep]
  split
  · rename_i hd
    rw [hd, deep?_size]
    rfl
  · rfl

/-- A handler that is connected tells the same function when there is a new deep watch. -/
theorem handlerCallback_addDeep_of_mem (h : m.Orderly) {o : ObjectId} {c : Connection}
    (hc : c ∈ m.connectionsOf o) (deep : DeepWatch) :
    (m.addDeep deep).handlerCallback c.handler = m.handlerCallback c.handler := by
  cases hh : c.handler with
  | report | recompute => rfl
  | follow d =>
    -- What a connection follows is there already.
    have hd : d ≠ m.deeps.size := by
      rintro rfl
      have hsome := h.followed o c hc _ hh
      rw [deep?_size] at hsome
      cases hsome
    rw [handlerCallback_addDeep, if_neg hd]

/-- Without a tree a new deep watch is a gain. -/
theorem gains_addDeep (m : Model) (owner : ObjectId) (key : String) (hk : ¬ known k) :
    Gains known k m (m.addDeep ⟨owner, key, k, none⟩) := by
  intro h hknows
  -- Whatever refers to a deep watch refers to one that was there before.
  have hold {d : DeepId} (hd : (m.deep? d).isSome = true) : d ≠ m.deeps.size := by
    rintro rfl
    rw [deep?_size] at hd
    cases hd
  have hsome {d : DeepId} (hd : (m.deep? d).isSome = true) :
      (m.addDeep ⟨owner, key, k, none⟩).deep? d = m.deep? d := by
    rw [deep?_addDeep, if_neg (hold hd)]
  have htree := tree?_addDeep m owner key k
  have hwatched (d : DeepId) : (m.addDeep ⟨owner, key, k, none⟩).watched d = m.watched d := by
    unfold watched
    rw [htree]
  have ht : Tends known m (m.addDeep ⟨owner, key, k, none⟩) := by
    refine ⟨Nat.le_refl _, fun _ _ hc => .inl hc, fun _ _ hx => .inl hx, fun _ _ hr => .inl hr,
      fun _ => Nat.le_refl _, fun d k' hd => ?_, fun d k' hk' hd => ?_⟩
    · obtain ⟨deep, hdeep, _⟩ := Option.map_eq_some_iff.1 hd
      rw [handlerCallback_addDeep, if_neg (hold (Option.isSome_of_eq_some hdeep))]
      exact hd
    · rw [handlerCallback_addDeep] at hd
      split at hd
      · obtain rfl : k = k' := Option.some.inj hd
        exact absurd hk' hk
      · exact hd
  constructor
  case orderly =>
    refine { h with
      followed := fun o c hc d hd => ?_
      nodup := fun d => ?_
      keyed := fun d t hd => ?_
      numbered := fun d x hx => ?_
      covered := fun o x hx d hd => ?_ }
    · rw [hsome (h.followed o c hc d hd)]
      exact h.followed o c hc d hd
    · rw [hwatched]
      exact h.nodup d
    · rw [htree] at hd
      exact h.keyed d t hd
    · rw [hwatched] at hx
      exact h.numbered d x hx
    · rw [hwatched]
      exact h.covered o x hx d hd
  case knows =>
    refine ⟨fun o c hc k' hk' => ?_, fun o x hx k' hk' => ?_, fun d k' hk' => ?_⟩
    · rw [ht.handlerCallback_eq h hc] at hk'
      exact hknows.handlers o c hc k' hk'
    · rw [ht.watchCallback_eq h hx] at hk'
      exact hknows.watchers o x hx k' hk'
    · rw [handlerCallback_addDeep] at hk'
      split at hk'
      · exact .inr (Option.some.inj hk').symm
      · exact hknows.deeps d k' hk'
  case persists => exact ht.persists h

/-- A tree that is built again for a deep watch of the function is a gain. -/
theorem gains_regrown {id : DeepId} {out gone added : List (ObjectId × Nat)}
    (hr : Regrown id out gone added m m') (hid : m.handlerCallback (.follow id) = some k)
    (hk : ¬ known k) : Gains known k m m' := by
  intro h hknows
  have ht : Tends known m m' := .swapped hr.swapped fun _ _ => .inr fun k' hk' htells =>
    hk (Option.some.inj (hid.symm.trans htells) ▸ hk')
  exact ⟨h.regrown hr, hknows.swapped hr.swapped, ht.persists h⟩

/-! ## Registrations -/

/-- A new registration comes last, with the next number. -/
theorem registrationsOf_register {o : ObjectId} (hb : m.isBound o = true)
    (connections : List (ObjectId × SubscriptionId)) (deep : Option DeepId) (p : ObjectId) :
    (m.register o connections deep).2.registrationsOf p =
      m.registrationsOf p ++ if p = o then [⟨m.nextId o, connections, deep⟩] else [] := by
  unfold registrationsOf register
  rw [binding?_modifyBinding]
  split
  · rename_i hp
    subst hp
    obtain ⟨b, hb⟩ := Option.isSome_iff_exists.1 hb
    unfold nextId
    rw [hb]
    rfl
  · exact (List.append_nil _).symm

/-- A new registration takes a number. -/
theorem lastIdOf_register {o : ObjectId} (hb : m.isBound o = true)
    (connections : List (ObjectId × SubscriptionId)) (deep : Option DeepId) (p : ObjectId) :
    (m.register o connections deep).2.lastIdOf p =
      if p = o then m.lastIdOf p + 1 else m.lastIdOf p := by
  unfold lastIdOf register
  rw [binding?_modifyBinding]
  split
  · rename_i hp
    subst hp
    obtain ⟨b, hb⟩ := Option.isSome_iff_exists.1 hb
    rw [hb]
    rfl
  · rfl

/-- A registration adds nothing that tells anyone. -/
theorem adds_register {o : ObjectId} (hb : m.isBound o = true)
    (connections : List (ObjectId × SubscriptionId)) (deep : Option DeepId) (k : CallbackId) :
    Adds k m (m.register o connections deep).2 where
  size := size_modifyObject m o _
  deeps := rfl
  store := store_modifyBinding m o _
  lastIdOf p := by
    rw [lastIdOf_register hb]
    split <;> omega
  connections p := by
    refine ⟨[], ?_, .nil, fun c hc => by cases hc⟩
    rw [List.append_nil]
    exact elim_modifyBinding (·.connections) (fun _ => by rfl) [] m o p
  watchers p := by
    refine ⟨[], ?_, .nil, fun x hx => by cases hx⟩
    rw [List.append_nil]
    exact elim_modifyBinding (·.watchers) (fun _ => by rfl) [] m o p
  registrations p := by
    refine ⟨_, registrationsOf_register hb connections deep p, ?_, fun r hr => ?_⟩
    · split
      · exact List.pairwise_singleton _ _
      · exact .nil
    · rw [lastIdOf_register hb]
      split at hr
      · rename_i hp
        subst hp
        obtain rfl := List.mem_singleton.1 hr
        rw [if_pos rfl]
        dsimp only
        rw [nextId_eq]
        omega
      · cases hr

/-! ## Subscriptions -/

/-- What becomes of a model when a function that was not known is subscribed from an object: known
functions are told by what told them before, new registrations cover the function, and a number that
is given out is that of such a registration. -/
structure Subscribed (known : CallbackId → Prop) (o : ObjectId) (k : CallbackId) (id : Option Nat)
    (m m' : Model) : Prop where
  /-- The tables are in order. -/
  orderly : m'.Orderly
  /-- No function is told but known ones and this one. -/
  knows : m'.Known fun k' => known k' ∨ k' = k
  /-- No known function loses its registration while anything tells it. -/
  follows : Follows known m m'
  /-- A new registration is one of the object and covers the function. -/
  registered : ∀ p, ∀ r ∈ m'.registrationsOf p, r ∈ m.registrationsOf p ∨ p = o ∧ m'.Covers r k
  /-- What tells the function is registered there, or belongs to the object. -/
  issued : m'.Issued o k
  /-- The number that is given out is that of the registration. -/
  held : ∀ i, id = some i → m'.Held o i k

variable {o : ObjectId}

/-- A subscription that fails leaves nothing behind. -/
theorem subscribed_of_eases (h : m.Orderly) (hknows : m.Known known) (hk : ¬ known k)
    (heases : Eases known m m') (hregs : ∀ p, m'.registrationsOf p = m.registrationsOf p) :
    Subscribed known o k none m m' := by
  obtain ⟨horderly, hknows', hpersists, _⟩ := heases h hknows
  refine ⟨horderly, ⟨?_, ?_, ?_⟩, ⟨hpersists, ?_⟩, ?_, .inr ((hknows'.dead hk).confined o), ?_⟩
  · exact fun p c hc k' hk' => .inl (hknows'.handlers p c hc k' hk')
  · exact fun p x hx k' hk' => .inl (hknows'.watchers p x hx k' hk')
  · exact fun d k' hk' => .inl (hknows'.deeps d k' hk')
  · exact fun p r hr _ _ _ => .inl (hregs p ▸ hr)
  · exact fun p r hr => .inl (hregs p ▸ hr)
  · intro i hi
    cases hi

/-- A raw subscription is made at one object. -/
theorem subscribed_raw (h : m.Orderly) (hknows : m.Known known) (hk : ¬ known k)
    (hadds : Adds k m m') (hregs : ∀ p, m'.registrationsOf p = m.registrationsOf p)
    (hconfined : m'.Confined o k) : Subscribed known o k none m m' := by
  obtain ⟨horderly, hknows', hpersists⟩ := hadds.gains hk h (hknows.mono fun _ => .inl)
  refine ⟨horderly, hknows', ⟨hpersists, ?_⟩, ?_, .inr hconfined, ?_⟩
  · exact fun p r hr _ _ _ => .inl (hregs p ▸ hr)
  · exact fun p r hr => .inl (hregs p ▸ hr)
  · intro i hi
    cases hi

/-- A handler that is connected to an object tells its function from there alone. -/
theorem confined_connect (hdead : m.Dead k) (o : ObjectId) (key : String) :
    (m.connect o key (.report ⟨k, none⟩)).2.Confined o k := by
  have hsub := subscribes_connect m o key (.report ⟨k, none⟩)
  refine ⟨fun p c hc htells => ?_, fun p x hx htells => ?_⟩
  · rw [hsub.connectionsOf] at hc
    rcases List.mem_append.1 hc with hc | hc
    · exact absurd htells (hdead.handlers p c hc)
    · obtain ⟨⟨hp, _⟩, rfl⟩ := mem_newConnection.1 hc
      exact ⟨hp, fun d hd => by cases hd⟩
  · rw [hsub.watchersOf] at hx
    exact absurd htells (hdead.watchers p x hx)

/-- A watcher of an object tells its function from there alone. -/
theorem confined_watch (hdead : m.Dead k) (hb : m.isBound o = true) :
    (m.watch o (.report k)).2.Confined o k := by
  have hr := rewatches_watch m o (.report k)
  refine ⟨fun p c hc htells => ?_, fun p x hx htells => ?_⟩
  · rw [hr.connectionsOf] at hc
    exact absurd htells (hdead.handlers p c hc)
  · rw [watchersOf_watch hb] at hx
    split at hx
    · rename_i hp
      rcases List.mem_append.1 hx with hx | hx
      · exact absurd htells (hdead.watchers p x hx)
      · obtain rfl := List.mem_singleton.1 hx
        exact ⟨hp, fun d hd => by cases hd⟩
    · exact absurd htells (hdead.watchers p x hx)

/-- A subscription is complete when what covers it is registered. -/
theorem subscribed_register (hk : ¬ known k) (hgained : Gained known k m m')
    (hregs : ∀ p, m'.registrationsOf p = m.registrationsOf p) (hb : m'.isBound o = true)
    {connections : List (ObjectId × SubscriptionId)} {deep : Option DeepId}
    (hcovers : m'.Covers ⟨m'.nextId o, connections, deep⟩ k) :
    Subscribed known o k (some (m'.nextId o)) m (m'.register o connections deep).2 := by
  have hfinal := (adds_register hb connections deep k).gains hk hgained.orderly hgained.knows
  -- The registration tells nobody, so that what holds for one function holds for each.
  have hcovers' : (m'.register o connections deep).2.Covers ⟨m'.nextId o, connections, deep⟩ k :=
    ((adds_register hb connections deep (k + 1)).tends (Nat.lt_succ_self k).ne).covers
      hgained.orderly rfl hcovers
  have hmem {p : ObjectId} {r : Registration} :
      r ∈ (m'.register o connections deep).2.registrationsOf p ↔
        r ∈ m.registrationsOf p ∨ p = o ∧ r = ⟨m'.nextId o, connections, deep⟩ := by
    rw [registrationsOf_register hb, hregs, List.mem_append]
    refine or_congr_right ?_
    split <;> simp [*]
  refine ⟨hfinal.orderly, hfinal.knows, ⟨hgained.persists.trans hfinal.persists fun _ hk => hk,
    fun p r hr _ _ _ => .inl (hmem.2 (.inl hr))⟩, fun p r hr => ?_,
    .inl ⟨_, hmem.2 (.inr ⟨rfl, rfl⟩), hcovers'⟩, fun i hi => ?_⟩
  · refine (hmem.1 hr).imp_right fun ⟨hp, hr⟩ => ⟨hp, ?_⟩
    rw [hr]
    exact hcovers'
  · obtain rfl := Option.some.inj hi
    refine ⟨?_, fun r hr hid => ?_, .inl ⟨_, hmem.2 (.inr ⟨rfl, rfl⟩), rfl⟩⟩
    · rw [lastIdOf_register hb, if_pos rfl, nextId_eq]
    · rcases hmem.1 hr with hr | ⟨_, rfl⟩
      · have hle := (hgained.orderly.registrations o).bounded r.id
          (List.mem_map.2 ⟨r, by rwa [hregs], rfl⟩)
        rw [nextId_eq] at hid
        omega
      · exact hcovers'

/-- Connections that were made for an unknown function are covered by a record of them. -/
theorem covers_connections (h : m.Orderly) (hknows : m.Known known) (hk : ¬ known k)
    {news : ObjectId → List Connection} {added : List (ObjectId × SubscriptionId)}
    (hsub : Subscribes news m m')
    (hnews : ∀ p, ∀ c ∈ news p, (p, ⟨c.key, c.seq⟩) ∈ added ∧ m.handlerCallback c.handler = some k)
    (hfresh : ∀ x ∈ added, m.lastIdOf x.1 < x.2.seq)
    (hlast : ∀ x ∈ added, x.2.seq ≤ m'.lastIdOf x.1) (id : Nat) :
    m'.Covers ⟨id, added, none⟩ k where
  handlers p c hc := by
    rw [handlerCallback_congr hsub.deeps]
    rw [hsub.connectionsOf] at hc
    rcases List.mem_append.1 hc with hc | hc
    · refine iff_of_false (fun htells => hk (hknows.handlers p c hc k htells)) fun hmem => ?_
      have := hfresh _ hmem
      have := (h.connections p).bounded c.seq (List.mem_map.2 ⟨c, hc, rfl⟩)
      dsimp only at *
      omega
    · exact iff_of_true (hnews p c hc).2 (hnews p c hc).1
  watchers p x hx hreport := by
    rw [hsub.watchersOf] at hx
    refine hk (hknows.watchers p x hx k ?_)
    rw [hreport]
    rfl
  deep d := by
    rw [handlerCallback_congr hsub.deeps]
    refine iff_of_false (fun htells => hk (hknows.deeps d k htells)) fun hnone => ?_
    cases hnone
  numbered := hlast

/-- A subscription to several names that fails leaves no connection behind. -/
theorem subscribes_of_refused {o : ObjectId} {handler : ScopedName → Handler} {fault : Fault}
    {names : List ScopedName} (hbounded : ∀ p, ∀ c ∈ m.connectionsOf p, c.seq ≤ m.lastIdOf p)
    (h : connectFields o handler names [] m = (.error fault, m')) :
    Subscribes (fun _ => []) m m' := by
  obtain ⟨news, added, m₁, hsub, rfl, hnews, hfresh⟩ := connectFields_of_error h
  rw [List.nil_append]
  have hd := disconnects_disconnectAll m₁ added
  have hkept : (m₁.disconnectAll added).holds = m₁.holds ∧
      ∀ p, (m₁.disconnectAll added).isBound p = m₁.isBound p := by
    have hI : Steady fun m m' : Model => m'.holds = m.holds ∧ ∀ p, m'.isBound p = m.isBound p :=
      ⟨fun _ => ⟨rfl, fun _ => rfl⟩,
        fun h h' => ⟨h'.1.trans h.1, fun p => (h'.2 p).trans (h.2 p)⟩⟩
    refine hI.foldl added (f := fun m x => (m.disconnect x.1 x.2).2) (fun x _ m => ?_) m₁
    exact ⟨rfl, isBound_modifyBinding m x.1 (·.disconnect x.2)⟩
  refine ⟨hd.size.trans hsub.size, hd.deeps.trans hsub.deeps, hkept.1.trans hsub.holds,
    fun p => (hd.store p).trans (hsub.store p),
    fun p => (hd.watchersOf p).trans (hsub.watchersOf p),
    fun p => (hd.registrationsOf p).trans (hsub.registrationsOf p),
    fun p => (hd.linkOf p).trans (hsub.linkOf p), fun p => (hd.keysOf p).trans (hsub.keysOf p),
    fun p hb => (hkept.2 p).trans (hsub.isBound p hb),
    fun p => Nat.le_trans (hsub.lastIdOf p) (Nat.le_of_eq (hd.lastIdOf p).symm), fun p => ?_,
    nofun, fun _ => .nil⟩
  -- What was there has numbers that were given out before, and what was made is in the list.
  rw [hd.connectionsOf, hsub.connectionsOf, List.filter_append]
  rw [List.filter_eq_self.2 fun c hc => ?_, List.filter_eq_nil_iff.2 fun c hc => ?_]
  · simpa using hnews p c hc
  · refine decide_eq_true fun hmem => ?_
    have hlt := hfresh _ hmem
    have hle := hbounded p c hc
    dsimp only at hlt
    omega

/-- A subscription to several names with handlers for one function. -/
theorem subscribed_bindFields (h : m.Orderly) (hknows : m.Known known) (hk : ¬ known k)
    (hb : m.isBound o = true) (names : List ScopedName) {handler : ScopedName → Handler}
    (hhandler : ∀ n, m.handlerCallback (handler n) = some k) :
    ∃ id, Subscribed known o k id m (bindFields o names handler m).2 ∧
      ∀ i, (bindFields o names handler m).1 = .ok (some i) → id = some i := by
  rw [bindFields_eq]
  split
  · refine ⟨none, subscribed_of_eases h hknows hk ((Eases.steady known).refl m) fun _ => rfl, ?_⟩
    intro i hi
    cases hi
  · cases hc : connectFields o handler names [] m with
    | mk r m₁ =>
      cases r with
      | error fault =>
        -- The connections that were made are taken out again.
        have hsub := subscribes_of_refused (fun p c hc =>
          (h.connections p).bounded c.seq (List.mem_map_of_mem hc)) hc
        exact ⟨none, subscribed_of_eases h hknows hk hsub.eases hsub.registrationsOf,
          fun i hi => by cases hi⟩
      | ok made =>
        have hlast := numbered_connectFields h.whole hb (fun x hx => by cases hx) hc
        obtain ⟨news, added, hmade, hsub, hnews, hfresh⟩ := connectFields_of_ok hc
        obtain rfl : made = added := hmade
        have hnews' : ∀ p, ∀ c ∈ news p, (p, ⟨c.key, c.seq⟩) ∈ made ∧
            m.handlerCallback c.handler = some k := by
          intro p c hc
          obtain ⟨hmem, n, _, heq⟩ := hnews p c hc
          refine ⟨hmem, ?_⟩
          rw [heq]
          exact hhandler n
        refine ⟨some (m₁.nextId o), subscribed_register hk ((hsub.adds fun p c hc =>
          (hnews' p c hc).2).gains hk h (hknows.mono fun _ => .inl)) hsub.registrationsOf
            (hsub.isBound o hb) (covers_connections h hknows hk hsub hnews' hfresh hlast _), ?_⟩
        intro i hi
        exact Option.some.inj (Except.ok.inj hi) ▸ rfl

/-- To subscribe to a property is to subscribe to its name alone. -/
theorem bindFields_singleton (o : ObjectId) (n : ScopedName) (k : CallbackId) (m : Model) :
    bindFields o [n] (fun _ => .report ⟨k, none⟩) m =
      ((bindProperty o n k m).1.map some, (bindProperty o n k m).2) := by
  rw [bindFields_eq]
  unfold bindProperty
  cases hres : resolve o n m with
  | mk r m₁ =>
    cases r with
    | error fault =>
      rw [Edit.bind_of_error hres, connectFields_of_unresolved hres]
      rfl
    | ok owner =>
      rw [Edit.bind_of_ok hres, connectFields_of_resolved hres]
      rfl

/-- A deep watch that is connected to its property is covered by a record of the two. -/
theorem covers_deep {a b : Model} {owner : ObjectId} {key : String} (h : a.Orderly)
    (hknows : a.Known known) (hk : ¬ known k) (hb : b.isBound owner = true)
    (hr : (a.addDeep ⟨owner, key, k, none⟩).Rewatches b)
    (hreports : ∀ p, ∀ x ∈ b.watchersOf p, x.watch = .report k → x ∈ a.watchersOf p) (id : Nat) :
    (b.connect owner key (.follow a.deeps.size)).2.Covers
      ⟨id, [(owner, ⟨key, b.nextId owner⟩)], some a.deeps.size⟩ k := by
  have hsub := subscribes_connect b owner key (.follow a.deeps.size)
  have hcallback (handler : Handler) :
      (b.connect owner key (.follow a.deeps.size)).2.handlerCallback handler =
        (a.addDeep ⟨owner, key, k, none⟩).handlerCallback handler :=
    (handlerCallback_congr hsub.deeps handler).trans (handlerCallback_of_rewatches hr handler)
  refine ⟨fun p c hc => ?_, fun p x hx hreport => ?_, fun d => ?_, fun x hx => ?_⟩
  · rw [hcallback]
    rw [hsub.connectionsOf] at hc
    rcases List.mem_append.1 hc with hc | hc
    · have hold : c ∈ a.connectionsOf p := by rwa [hr.connectionsOf] at hc
      refine iff_of_false (fun htells => hk ?_) fun hmem => ?_
      · rw [handlerCallback_addDeep_of_mem h hold] at htells
        exact hknows.handlers p c hold k htells
      · -- A connection that was there has a number that was given out.
        obtain ⟨rfl, hid⟩ := Prod.mk.inj (List.mem_singleton.1 hmem)
        have hle := (h.connections p).bounded c.seq (List.mem_map.2 ⟨c, hold, rfl⟩)
        have hlast : a.lastIdOf p ≤ b.lastIdOf p := hr.lastIdOf p
        have hseq := congrArg SubscriptionId.seq hid
        dsimp only at hseq
        rw [nextId_eq] at hseq
        omega
    · obtain ⟨⟨rfl, _⟩, rfl⟩ := mem_newConnection.1 hc
      refine iff_of_true ?_ List.mem_cons_self
      rw [handlerCallback_addDeep, if_pos rfl]
  · rw [hsub.watchersOf] at hx
    refine hk (hknows.watchers p x (hreports p x hx hreport) k ?_)
    rw [hreport]
    rfl
  · rw [hcallback, handlerCallback_addDeep]
    split
    · rename_i hd
      rw [hd]
      exact iff_of_true rfl rfl
    · rename_i hd
      refine iff_of_false (fun htells => hk (hknows.deeps d k htells)) fun heq => ?_
      exact hd (Option.some.inj heq).symm
  · obtain rfl := List.mem_singleton.1 hx
    exact (hsub.fresh owner _ (mem_newConnection.2 ⟨⟨rfl, hb⟩, rfl⟩)).2

/-- A subscription to a property with everything inside its value, if no object lies too deep. -/
theorem subscribed_bindDeep (h : m.Orderly) (hknows : m.Known known) (hk : ¬ known k)
    (hb : m.isBound o = true) {n : ScopedName} {r : Except Fault (Nat × ObjectId × Value)}
    (hbind : bindDeep o n k m = (r, m')) (hshallow : r ≠ .error .nestedObjects) :
    ∃ id, Subscribed known o k id m m' ∧ ∀ x, r = .ok x → id = some x.1 := by
  cases setUp_of_bindDeep hbind with
  | unresolved hres =>
    have hsub := subscribes_resolve hres
    exact ⟨none, subscribed_of_eases h hknows hk hsub.eases hsub.registrationsOf,
      fun x hx => by cases hx⟩
  | refused _ hret =>
    rw [retarget_error hret] at hshallow
    exact absurd rfl hshallow
  | @bound owner a b c seq hres hret hconnected =>
    obtain ⟨rfl, rfl⟩ := Prod.mk.inj hconnected
    have hsub := subscribes_resolve hres
    obtain ⟨ha, haknows, _, _⟩ := hsub.eases h hknows
    have howner := isBound_of_resolve h.whole hb hres
    let a' := a.addDeep ⟨owner, n.name, k, none⟩
    have hcallback : a'.handlerCallback (.follow a.deeps.size) = some k := by
      rw [handlerCallback_addDeep, if_pos rfl]
    have hadded : Gained known k m a' :=
      (Gains.steady known k).trans hsub.eases.gains (gains_addDeep a owner n.name hk) h
        (hknows.mono fun _ => .inl)
    have hr : a'.Rewatches b := (rewatches_retarget _ _).of_run hret
    have hmoved := regrown_retarget hadded.orderly.whole
      (by rw [deep?_addDeep, if_pos rfl]; rfl)
      (fun q hq => ha.whole owner q (Store.get_mem_values hq)) hret
    have hgains : Gains known k a' b := by
      rcases hmoved with rfl | ⟨gone, added, hregrown⟩
      · exact (Gains.steady known k).refl _
      · exact gains_regrown hregrown hcallback hk
    -- What the tree is built of mends, and does not report.
    have hreports : ∀ p, ∀ x ∈ b.watchersOf p, x.watch = .report k → x ∈ a.watchersOf p := by
      intro p x hx hreport
      rcases hmoved with rfl | ⟨gone, added, hregrown⟩
      · exact hx
      · rcases hregrown.swapped.watcher_cases hx with ⟨hx, _⟩ | ⟨hmend, _⟩
        · exact hx
        · rw [hmend] at hreport
          cases hreport
    have hconnect := subscribes_connect b owner n.name (.follow a.deeps.size)
    have hconnects : Gains known k b (b.connect owner n.name (.follow a.deeps.size)).2 := by
      refine (hconnect.adds fun p c hc => ?_).gains hk
      obtain ⟨_, rfl⟩ := mem_newConnection.1 hc
      exact (handlerCallback_of_rewatches hr _).trans hcallback
    have hb' : b.isBound o = true := hr.isBound o (hsub.isBound o hb)
    refine ⟨_, subscribed_register hk ((Gains.steady known k).trans
      ((Gains.steady known k).trans (fun _ _ => hadded) hgains) hconnects h
        (hknows.mono fun _ => .inl)) (fun p => ?_) (hconnect.isBound o hb')
        (covers_deep ha haknows hk (hr.isBound owner howner) hr hreports _), ?_⟩
    · rw [hconnect.registrationsOf, hr.registrationsOf]
      exact hsub.registrationsOf p
    · intro x hx
      rw [← Except.ok.inj hx]
      rfl

end Model

/-! ## The ways to subscribe -/

/-- The ways to subscribe a function from an object. -/
inductive Subscription where
  /-- A handler for a key of the object. -/
  | connect (key : String)
  /-- A watcher of the object. -/
  | watch
  /-- A handler for a name. -/
  | property (n : ScopedName)
  /-- A handler for each of several names. -/
  | fields (names : List ScopedName)
  /-- The value of an expression. -/
  | expr (src : String) (row : Value)
  /-- The text of a template. -/
  | template (src : String) (row : Value)
  /-- A name with everything inside its value. -/
  | object (n : ScopedName)

namespace Subscription

variable {γ : Type} {known : CallbackId → Prop} {o : ObjectId} {k : CallbackId}

/-- Subscribes a function; gives the number of the registration, if there is one. -/
def run (listen : Listener γ) (o : ObjectId) (k : CallbackId) : Subscription → Act γ (Option Nat)
  | connect key => Act.edit do
    let _ ← modifyGet (·.connect o key (.report ⟨k, none⟩))
    return none
  | watch => Act.edit do
    let _ ← modifyGet (·.watch o (.report k))
    return none
  | property n => some <$> Act.edit (Model.bindProperty o n k)
  | fields names => Act.edit (Model.bindFields o names fun n => .report ⟨k, some n.text⟩)
  | expr src row => (·.id) <$> Scope.bindExpr listen o src row ⟨k, none⟩
  | template src row => (·.id) <$> Scope.bindTemplate listen o src row ⟨k, none⟩
  | object n => some <$> Scope.bindObject listen o n k

/-- What a subscription has done when it is over: it changed the model, and told the function a
value if it tells one at once. -/
def Done (known : CallbackId → Prop) (listen : Listener γ) (o : ObjectId) (k : CallbackId)
    (w : World γ) (r : Except Fault (Option Nat) × World γ) : Prop :=
  ∃ id m, Model.Subscribed known o k id w.model m ∧ (∀ i, r.1 = .ok (some i) → id = some i) ∧
    (r.2 = { w with model := m } ∨
      ∃ hs v, r.2 = World.holding hs (listen (.value k v)) { w with model := m })

/-- A change of the model alone is done when the model is changed. -/
theorem done_of_edit {listen : Listener γ} {w : World γ} {id : Option Nat} {m : Model}
    {r : Except Fault (Option Nat)} (h : Model.Subscribed known o k id w.model m)
    (hid : ∀ i, r = .ok (some i) → id = some i) :
    Done known listen o k w (r, { w with model := m }) :=
  ⟨id, m, h, hid, .inl rfl⟩

/-- The result of an operation does not matter for what it does. -/
theorem map_eq {α β : Type} (f : α → β) (act : Act γ α) (w : World γ) :
    (f <$> act) w = ((act w).1.map f, (act w).2) := by
  show ExceptT.map f act w = _
  unfold ExceptT.map
  cases h : act w with
  | mk r w' =>
    simp only [ExceptT.mk, bind, StateT.bind, h]
    cases r <;> rfl

/-- Binding an expression is done when it has told the value. -/
theorem done_bindFormula {listen : Listener γ} {w : World γ} (h : w.model.Orderly)
    (hknows : w.model.Known known) (hk : ¬ known k) (hb : w.model.isBound o = true) (e : Expr)
    (row : Value) : Done known listen o k w
      (((·.id) <$> Scope.bindFormula listen o e row ⟨k, none⟩ : Act γ (Option Nat)) w) := by
  rw [map_eq, Scope.bindFormula_eq]
  cases e.eval w.model (.object o) row with
  | error fault =>
    refine done_of_edit (m := w.model) (Model.subscribed_of_eases h hknows hk
      ((Model.Eases.steady known).refl w.model) fun _ => rfl) fun i hi => ?_
    cases hi
  | ok v =>
    obtain ⟨id, hsubscribed, hid⟩ := Model.subscribed_bindFields h hknows hk hb e.fields
      fun n => show w.model.handlerCallback (.recompute n.text ⟨e, o, row, ⟨k, none⟩⟩) = _ from rfl
    dsimp only
    cases hbind : Model.bindFields o e.fields
        (fun n => .recompute n.text ⟨e, o, row, ⟨k, none⟩⟩) w.model with
    | mk r m =>
      rw [hbind] at hsubscribed hid
      cases r with
      | error fault => exact done_of_edit hsubscribed fun i hi => by cases hi
      | ok id' => exact ⟨id, m, hsubscribed, hid, .inr ⟨_, v, rfl⟩⟩

/-- A subscription is done, if no object lies too deep to watch. -/
theorem done_run {listen : Listener γ} {w : World γ} (h : w.model.Orderly)
    (hknows : w.model.Known known) (hk : ¬ known k) (hb : w.model.isBound o = true)
    (s : Subscription) (hshallow : (s.run listen o k w).1 ≠ .error .nestedObjects) :
    Done known listen o k w (s.run listen o k w) := by
  have hdead := hknows.dead hk
  cases s with
  | connect key =>
    have hsub := Model.subscribes_connect w.model o key (.report ⟨k, none⟩)
    refine done_of_edit (Model.subscribed_raw h hknows hk (hsub.adds fun p c hc => ?_)
      hsub.registrationsOf (Model.confined_connect hdead o key)) fun i hi => ?_
    · obtain ⟨_, rfl⟩ := Model.mem_newConnection.1 hc
      rfl
    · cases hi
  | watch =>
    have hr := Model.rewatches_watch w.model o (.report k)
    refine done_of_edit (Model.subscribed_raw h hknows hk (Model.adds_watch w.model o k)
      hr.registrationsOf (Model.confined_watch hdead hb)) fun i hi => ?_
    cases hi
  | property n =>
    obtain ⟨id, hsubscribed, hid⟩ := Model.subscribed_bindFields h hknows hk hb [n]
      fun _ => show w.model.handlerCallback (.report ⟨k, none⟩) = _ from rfl
    rw [Model.bindFields_singleton] at hsubscribed hid
    rw [run, map_eq]
    exact done_of_edit hsubscribed hid
  | fields names =>
    obtain ⟨id, hsubscribed, hid⟩ := Model.subscribed_bindFields h hknows hk hb names
      fun n => show w.model.handlerCallback (.report ⟨k, some n.text⟩) = _ from rfl
    exact done_of_edit hsubscribed hid
  | expr src row =>
    cases hsrc : Expr.ofSource src with
    | error fault =>
      -- A source that is not read subscribes nothing.
      rw [run, map_eq]
      unfold Scope.bindExpr
      rw [hsrc]
      refine done_of_edit (m := w.model) (Model.subscribed_of_eases h hknows hk
        ((Model.Eases.steady known).refl w.model) fun _ => rfl) fun i hi => ?_
      cases hi
    | ok e =>
      rw [run, map_eq, Scope.bindExpr_eq _ _ _ hsrc, ← map_eq]
      exact done_bindFormula h hknows hk hb e row
  | template src row =>
    cases hsrc : Expr.ofTemplate src with
    | error fault =>
      rw [run, map_eq]
      unfold Scope.bindTemplate
      rw [hsrc]
      refine done_of_edit (m := w.model) (Model.subscribed_of_eases h hknows hk
        ((Model.Eases.steady known).refl w.model) fun _ => rfl) fun i hi => ?_
      cases hi
    | ok e =>
      rw [run, map_eq, Scope.bindTemplate_eq _ _ _ hsrc, ← map_eq]
      exact done_bindFormula h hknows hk hb e row
  | object n =>
    rw [run, map_eq, Scope.bindObject_eq] at hshallow ⊢
    cases hbind : Model.bindDeep o n k w.model with
    | mk r m =>
      rw [hbind] at hshallow
      -- A refusal would leave watchers behind; the premise rules it out.
      have hr : r ≠ .error .nestedObjects := by
        rintro rfl
        exact hshallow rfl
      obtain ⟨id, hsubscribed, hid⟩ := Model.subscribed_bindDeep h hknows hk hb hbind hr
      cases r with
      | error fault => exact done_of_edit hsubscribed fun i hi => by cases hi
      | ok x =>
        obtain ⟨i, owner, v⟩ := x
        refine ⟨id, m, hsubscribed, fun i' hi' => ?_, .inr ⟨_, v, rfl⟩⟩
        rw [hid _ rfl]
        exact Except.ok.inj hi'

end Subscription

end LiveScope
