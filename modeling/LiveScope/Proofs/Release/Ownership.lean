import LiveScope.Proofs.Model.Orderly

/-!
# Whose handlers and watchers they are

Every handler and every watcher tells one function. A registration covers a function if it records
exactly what tells it (`Model.Covers`); a function whose subscription is raw, or failed, is told by
one object alone (`Model.Confined`), and one whose subscription was released by nothing
(`Model.Dead`). `Model.Persists` says that all this stays so for the functions in a set `known`, and
`Model.Tends` is what a change needs to be for that: nothing new tells them, except that a deep
watch in use may watch further objects.
-/

namespace LiveScope.Model

variable {m m' m'' : Model} {known : CallbackId → Prop} {k : CallbackId}

/-- Whether nothing tells a function. -/
structure Dead (m : Model) (k : CallbackId) : Prop where
  /-- No handler tells it. -/
  handlers : ∀ o, ∀ c ∈ m.connectionsOf o, m.handlerCallback c.handler ≠ some k
  /-- No watcher tells it. -/
  watchers : ∀ o, ∀ x ∈ m.watchersOf o, m.watchCallback x.watch ≠ some k

/-- Whether a function is told by one object alone, and by no deep watch. -/
structure Confined (m : Model) (o : ObjectId) (k : CallbackId) : Prop where
  /-- A handler that tells it is connected to the object and moves no deep watch. -/
  handlers : ∀ p, ∀ c ∈ m.connectionsOf p, m.handlerCallback c.handler = some k →
    p = o ∧ ∀ d, c.handler ≠ .follow d
  /-- A watcher that tells it watches the object and mends no deep watch. -/
  watchers : ∀ p, ∀ x ∈ m.watchersOf p, m.watchCallback x.watch = some k →
    p = o ∧ ∀ d, x.watch ≠ .mend d

/-- Whether a registration records exactly what tells a function. -/
structure Covers (m : Model) (r : Registration) (k : CallbackId) : Prop where
  /-- The handlers that tell it are those whose connections are recorded. -/
  handlers : ∀ p, ∀ c ∈ m.connectionsOf p,
    m.handlerCallback c.handler = some k ↔ (p, ⟨c.key, c.seq⟩) ∈ r.connections
  /-- No watcher reports to it. -/
  watchers : ∀ p, ∀ x ∈ m.watchersOf p, x.watch ≠ .report k
  /-- A deep watch that tells it is the one recorded. -/
  deep : ∀ d, m.handlerCallback (.follow d) = some k ↔ r.deep = some d
  /-- The numbers recorded were given out. -/
  numbered : ∀ x ∈ r.connections, x.2.seq ≤ m.lastIdOf x.1

/-- Whether something follows or mends a deep watch. -/
def Busy (m : Model) (d : DeepId) : Prop :=
  (∃ o, ∃ c ∈ m.connectionsOf o, c.handler = .follow d) ∨
    ∃ o, ∃ x ∈ m.watchersOf o, x.watch = .mend d

/-- A function that nothing tells is told by any one object alone. -/
theorem Dead.confined (h : m.Dead k) (o : ObjectId) : m.Confined o k where
  handlers p c hc htells := absurd htells (h.handlers p c hc)
  watchers p x hx htells := absurd htells (h.watchers p x hx)

/-- What follows a deep watch tells its function. -/
theorem handlerCallback_follow {d : DeepId} {deep : DeepWatch} (h : m.deep? d = some deep) :
    m.handlerCallback (.follow d) = some deep.callback :=
  congrArg (Option.map _) h

/-- A deep watch in use exists. -/
theorem Busy.exists_callback (h : m.Orderly) {d : DeepId} (hbusy : m.Busy d) :
    ∃ k, m.handlerCallback (.follow d) = some k := by
  have hsome : (m.deep? d).isSome = true := by
    rcases hbusy with ⟨o, c, hc, hfollow⟩ | ⟨o, x, hx, hmend⟩
    · exact h.followed o c hc d hfollow
    · exact h.mended hx hmend
  obtain ⟨deep, hdeep⟩ := Option.isSome_iff_exists.1 hsome
  exact ⟨deep.callback, handlerCallback_follow hdeep⟩

/-- What only rewatches leaves every handler its function. -/
theorem handlerCallback_of_rewatches (h : m.Rewatches m') (handler : Handler) :
    m'.handlerCallback handler = m.handlerCallback handler := by
  cases handler with
  | report => rfl
  | recompute => rfl
  | follow d =>
    have hbare := congrArg (Option.map DeepWatch.callback) (h.deep? d)
    rw [Option.map_map, Option.map_map] at hbare
    exact hbare

/-! ## What a change leaves to the known functions -/

/-- What is new in `m'` has a new number and tells no known function, unless it is a watcher for a
deep watch in use; deep watches keep their functions. -/
structure Tends (known : CallbackId → Prop) (m m' : Model) : Prop where
  /-- No object is lost. -/
  size : m.objects.size ≤ m'.objects.size
  /-- A connection that was not there has a new number and tells no known function. -/
  connections : ∀ o, ∀ c ∈ m'.connectionsOf o, c ∈ m.connectionsOf o ∨
    m.lastIdOf o < c.seq ∧ ∀ k, known k → m'.handlerCallback c.handler ≠ some k
  /-- So does a watcher that was not there, unless it mends a deep watch in use. -/
  watchers : ∀ o, ∀ x ∈ m'.watchersOf o, x ∈ m.watchersOf o ∨
    m.lastIdOf o < x.seq ∧ ∀ k, known k → m'.watchCallback x.watch = some k →
      ∃ d, x.watch = .mend d ∧ m.Busy d
  /-- A registration that was not there has a new number. -/
  registrations : ∀ o, ∀ r ∈ m'.registrationsOf o,
    r ∈ m.registrationsOf o ∨ m.lastIdOf o < r.id
  /-- Numbers that were given out stay given out. -/
  lastIdOf : ∀ o, m.lastIdOf o ≤ m'.lastIdOf o
  /-- Deep watches keep their functions. -/
  deeps : ∀ d k, m.handlerCallback (.follow d) = some k →
    m'.handlerCallback (.follow d) = some k
  /-- A deep watch that was not there tells no known function. -/
  newDeeps : ∀ d k, known k → m'.handlerCallback (.follow d) = some k →
    m.handlerCallback (.follow d) = some k

/-- Old entries of the tables of `m'` are entries of `m`, and what is so of the known functions
stays so. -/
structure Persists (known : CallbackId → Prop) (m m' : Model) : Prop where
  /-- No object is lost. -/
  size : m.objects.size ≤ m'.objects.size
  /-- A connection under an old number was there. -/
  connections : ∀ o, ∀ c ∈ m'.connectionsOf o, c.seq ≤ m.lastIdOf o → c ∈ m.connectionsOf o
  /-- A watcher under an old number was there. -/
  watchers : ∀ o, ∀ x ∈ m'.watchersOf o, x.seq ≤ m.lastIdOf o → x ∈ m.watchersOf o
  /-- A registration under an old number was there. -/
  registrations : ∀ o, ∀ r ∈ m'.registrationsOf o, r.id ≤ m.lastIdOf o → r ∈ m.registrationsOf o
  /-- Numbers that were given out stay given out. -/
  lastIdOf : ∀ o, m.lastIdOf o ≤ m'.lastIdOf o
  /-- A known function that nothing tells is not told by anything new. -/
  dead : ∀ k, known k → m.Dead k → m'.Dead k
  /-- A known function that one object alone tells is told by no other. -/
  confined : ∀ o k, known k → m.Confined o k → m'.Confined o k
  /-- A registration that covers a known function goes on to cover it. -/
  covers : ∀ r k, known k → m.Covers r k → m'.Covers r k

namespace Persists

/-- Nothing changes. -/
theorem refl (known : CallbackId → Prop) (m : Model) : Persists known m m where
  size := Nat.le_refl _
  connections _ _ hc _ := hc
  watchers _ _ hx _ := hx
  registrations _ _ hr _ := hr
  lastIdOf _ := Nat.le_refl _
  dead _ _ h := h
  confined _ _ _ h := h
  covers _ _ _ h := h

/-- One change after another; functions that become known in between do not matter. -/
theorem trans {known' : CallbackId → Prop} (h : Persists known m m')
    (h' : Persists known' m' m'') (hknown : ∀ k, known k → known' k) :
    Persists known m m'' where
  size := Nat.le_trans h.size h'.size
  connections o c hc hle :=
    h.connections o c (h'.connections o c hc (Nat.le_trans hle (h.lastIdOf o))) hle
  watchers o x hx hle := h.watchers o x (h'.watchers o x hx (Nat.le_trans hle (h.lastIdOf o))) hle
  registrations o r hr hle :=
    h.registrations o r (h'.registrations o r hr (Nat.le_trans hle (h.lastIdOf o))) hle
  lastIdOf o := Nat.le_trans (h.lastIdOf o) (h'.lastIdOf o)
  dead k hk hd := h'.dead k (hknown k hk) (h.dead k hk hd)
  confined o k hk hs := h'.confined o k (hknown k hk) (h.confined o k hk hs)
  covers r k hk hc := h'.covers r k (hknown k hk) (h.covers r k hk hc)

end Persists

namespace Tends

/-- A handler that was there tells the same function afterwards. -/
theorem handlerCallback_eq (ht : Tends known m m') (h : m.Orderly) {o : ObjectId} {c : Connection}
    (hc : c ∈ m.connectionsOf o) : m'.handlerCallback c.handler = m.handlerCallback c.handler := by
  cases hh : c.handler with
  | report => rfl
  | recompute => rfl
  | follow d =>
    obtain ⟨k, hk⟩ := Busy.exists_callback h (.inl ⟨o, c, hc, hh⟩)
    rw [hk]
    exact ht.deeps d k hk

/-- A watcher that was there tells the same function afterwards. -/
theorem watchCallback_eq (ht : Tends known m m') (h : m.Orderly) {o : ObjectId} {x : Watcher}
    (hx : x ∈ m.watchersOf o) : m'.watchCallback x.watch = m.watchCallback x.watch := by
  cases hw : x.watch with
  | report => rfl
  | mend d =>
    obtain ⟨k, hk⟩ := Busy.exists_callback h (.inr ⟨o, x, hx, hw⟩)
    exact (ht.deeps d k hk).trans hk.symm

/-- A new watcher that tells a known function belongs to a deep watch that told it before. -/
theorem busy_of_new (ht : Tends known m m') (hk : known k) {d : DeepId}
    (hbusy : m.Busy d) (htells : m'.watchCallback (.mend d) = some k) :
    (∃ o, ∃ c ∈ m.connectionsOf o, c.handler = .follow d ∧ m.handlerCallback c.handler = some k) ∨
      ∃ o, ∃ x ∈ m.watchersOf o, x.watch = .mend d ∧ m.watchCallback x.watch = some k := by
  have hsame : m.handlerCallback (.follow d) = some k := ht.newDeeps d k hk htells
  rcases hbusy with ⟨o, c, hc, hfollow⟩ | ⟨o, x, hx, hmend⟩
  · exact .inl ⟨o, c, hc, hfollow, hfollow ▸ hsame⟩
  · exact .inr ⟨o, x, hx, hmend, hmend ▸ hsame⟩

/-- What nothing tells, nothing tells afterwards. -/
theorem dead (ht : Tends known m m') (h : m.Orderly) (hk : known k) (hdead : m.Dead k) :
    m'.Dead k where
  handlers o c hc := by
    rcases ht.connections o c hc with hc | ⟨_, hnew⟩
    · rw [ht.handlerCallback_eq h hc]
      exact hdead.handlers o c hc
    · exact hnew k hk
  watchers o x hx := by
    rcases ht.watchers o x hx with hx | ⟨_, hnew⟩
    · rw [ht.watchCallback_eq h hx]
      exact hdead.watchers o x hx
    · intro htells
      obtain ⟨d, hmend, hbusy⟩ := hnew k hk htells
      rw [hmend] at htells
      rcases ht.busy_of_new hk hbusy htells with ⟨p, c, hc, _, htold⟩ | ⟨p, y, hy, _, htold⟩
      · exact hdead.handlers p c hc htold
      · exact hdead.watchers p y hy htold

/-- What one object alone tells, it alone tells afterwards. -/
theorem confined (ht : Tends known m m') (h : m.Orderly) (hk : known k) {o : ObjectId}
    (hconfined : m.Confined o k) : m'.Confined o k where
  handlers p c hc htells := by
    rcases ht.connections p c hc with hc | ⟨_, hnew⟩
    · rw [ht.handlerCallback_eq h hc] at htells
      exact hconfined.handlers p c hc htells
    · exact absurd htells (hnew k hk)
  watchers p x hx htells := by
    rcases ht.watchers p x hx with hx | ⟨_, hnew⟩
    · rw [ht.watchCallback_eq h hx] at htells
      exact hconfined.watchers p x hx htells
    · obtain ⟨d, hmend, hbusy⟩ := hnew k hk htells
      rw [hmend] at htells
      rcases ht.busy_of_new hk hbusy htells with ⟨q, c, hc, heq, htold⟩ | ⟨q, y, hy, heq, htold⟩
      · exact absurd heq ((hconfined.handlers q c hc htold).2 d)
      · exact absurd heq ((hconfined.watchers q y hy htold).2 d)

/-- What a registration covers, it covers afterwards. -/
theorem covers (ht : Tends known m m') (h : m.Orderly) (hk : known k) {r : Registration}
    (hcovers : m.Covers r k) : m'.Covers r k where
  handlers p c hc := by
    rcases ht.connections p c hc with hc | ⟨hfresh, hnew⟩
    · rw [ht.handlerCallback_eq h hc]
      exact hcovers.handlers p c hc
    · refine iff_of_false (hnew k hk) fun hmem => ?_
      have := hcovers.numbered _ hmem
      dsimp only at this
      omega
  watchers p x hx heq := by
    rcases ht.watchers p x hx with hx | ⟨_, hnew⟩
    · exact hcovers.watchers p x hx heq
    · rw [heq] at hnew
      obtain ⟨d, hmend, _⟩ := hnew k hk rfl
      cases hmend
  deep d := by
    rw [← hcovers.deep d]
    exact ⟨ht.newDeeps d k hk, ht.deeps d k⟩
  numbered x hx := Nat.le_trans (hcovers.numbered x hx) (ht.lastIdOf x.1)

/-- In a model whose tables are in order, what is so of the known functions stays so. -/
theorem persists (ht : Tends known m m') (h : m.Orderly) : Persists known m m' where
  size := ht.size
  connections o c hc hle := by
    rcases ht.connections o c hc with hc | ⟨hlt, _⟩
    · exact hc
    · omega
  watchers o x hx hle := by
    rcases ht.watchers o x hx with hx | ⟨hlt, _⟩
    · exact hx
    · omega
  registrations o r hr hle := by
    rcases ht.registrations o r hr with hr | hlt
    · exact hr
    · omega
  lastIdOf := ht.lastIdOf
  dead _ hk hd := ht.dead h hk hd
  confined _ _ hk hs := ht.confined h hk hs
  covers _ _ hk hc := ht.covers h hk hc

/-- Tables that lose entries tend so. -/
theorem fewer (hsize : m.objects.size ≤ m'.objects.size) (hdeeps : m'.deeps = m.deeps)
    (hconnections : ∀ o, ∀ c ∈ m'.connectionsOf o, c ∈ m.connectionsOf o)
    (hwatchers : ∀ o, ∀ x ∈ m'.watchersOf o, x ∈ m.watchersOf o)
    (hregistrations : ∀ o, ∀ r ∈ m'.registrationsOf o, r ∈ m.registrationsOf o)
    (hlast : ∀ o, m.lastIdOf o ≤ m'.lastIdOf o) : Tends known m m' where
  size := hsize
  connections o c hc := .inl (hconnections o c hc)
  watchers o x hx := .inl (hwatchers o x hx)
  registrations o r hr := .inl (hregistrations o r hr)
  lastIdOf := hlast
  deeps d k h := by
    unfold handlerCallback deep? at *
    rwa [hdeeps]
  newDeeps d k _ h := by
    unfold handlerCallback deep? at *
    rwa [hdeeps] at h

/-- A deep watch that is moved or mended tends so, if it gets new nodes only while it is in use or
unknown. -/
theorem swapped {id : DeepId} {gone added : List (ObjectId × Nat)}
    (hs : Swapped id gone added m m')
    (hid : ∀ x ∈ added, m.Busy id ∨ ∀ k, known k → m.handlerCallback (.follow id) ≠ some k) :
    Tends known m m' where
  size := Nat.le_of_eq hs.rewatches.size.symm
  connections o c hc := .inl (hs.rewatches.connectionsOf o ▸ hc)
  watchers o x hx := by
    obtain ⟨new, hnew, _, hmem⟩ := hs.watchersOf o
    rw [hnew] at hx
    rcases List.mem_append.1 hx with hx | hx
    · exact .inl (List.mem_filter.1 hx).1
    · obtain ⟨hmend, hadded⟩ := (hmem x).1 hx
      refine .inr ⟨(hs.fresh _ hadded).1, fun k hk htells => ⟨id, hmend, ?_⟩⟩
      rw [hmend] at htells
      refine (hid _ hadded).resolve_right fun hunknown => hunknown k hk ?_
      rw [← htells]
      exact (handlerCallback_of_rewatches hs.rewatches (.follow id)).symm
  registrations o r hr := .inl (hs.rewatches.registrationsOf o ▸ hr)
  lastIdOf := hs.rewatches.lastIdOf
  deeps d k h := (handlerCallback_of_rewatches hs.rewatches (.follow d)).trans h
  newDeeps d k _ h := (handlerCallback_of_rewatches hs.rewatches (.follow d)).symm.trans h

end Tends

/-! ## Changes that subscribe nothing -/

/-- Whether every function that is told, or would be by a deep watch, is known. -/
structure Known (known : CallbackId → Prop) (m : Model) : Prop where
  /-- The functions that handlers tell are known. -/
  handlers : ∀ o, ∀ c ∈ m.connectionsOf o, ∀ k, m.handlerCallback c.handler = some k → known k
  /-- So are those that watchers tell. -/
  watchers : ∀ o, ∀ x ∈ m.watchersOf o, ∀ k, m.watchCallback x.watch = some k → known k
  /-- So are those of deep watches. -/
  deeps : ∀ d k, m.handlerCallback (.follow d) = some k → known k

/-- More functions may be known. -/
theorem Known.mono {known' : CallbackId → Prop} (h : m.Known known)
    (hknown : ∀ k, known k → known' k) : m.Known known' where
  handlers o c hc k hk := hknown k (h.handlers o c hc k hk)
  watchers o x hx k hk := hknown k (h.watchers o x hx k hk)
  deeps d k hk := hknown k (h.deeps d k hk)

/-- An unknown function is told by nothing. -/
theorem Known.dead (h : m.Known known) (hk : ¬ known k) : m.Dead k where
  handlers o c hc htells := hk (h.handlers o c hc k htells)
  watchers o x hx htells := hk (h.watchers o x hx k htells)

/-- A deep watch that is moved or mended tells a known function as before. -/
theorem Known.swapped (h : m.Known known) {id : DeepId} {gone added : List (ObjectId × Nat)}
    (hs : Swapped id gone added m m') : m'.Known known where
  handlers o c hc k hk := by
    rw [hs.rewatches.connectionsOf] at hc
    rw [handlerCallback_of_rewatches hs.rewatches] at hk
    exact h.handlers o c hc k hk
  watchers o x hx k hk := by
    cases hw : x.watch with
    | report =>
      obtain ⟨new, hnew, _, hmem⟩ := hs.watchersOf o
      rw [hnew] at hx
      rcases List.mem_append.1 hx with hx | hx
      · refine h.watchers o x (List.mem_filter.1 hx).1 k ?_
        rw [hw] at hk ⊢
        exact hk
      · rw [((hmem x).1 hx).1] at hw
        cases hw
    | mend d =>
      rw [hw] at hk
      exact h.deeps d k ((handlerCallback_of_rewatches hs.rewatches (.follow d)).symm.trans hk)
  deeps d k hk := by
    rw [handlerCallback_of_rewatches hs.rewatches] at hk
    exact h.deeps d k hk

/-- All functions are known if every function is. -/
theorem knows_all (m : Model) : m.Known fun _ => True :=
  ⟨fun _ _ _ _ _ => trivial, fun _ _ _ _ _ => trivial, fun _ _ _ => trivial⟩

/-- What becomes of a model by a change that subscribes nothing. -/
structure Eased (known : CallbackId → Prop) (m m' : Model) : Prop where
  /-- The tables are in order. -/
  orderly : m'.Orderly
  /-- No function is told that was not known. -/
  knows : m'.Known known
  /-- What is so of the known functions stays so. -/
  persists : Persists known m m'
  /-- No registration is new. -/
  registrations : ∀ o, ∀ r ∈ m'.registrationsOf o, r ∈ m.registrationsOf o

/-- Whether a change subscribes nothing and leaves the tables in order. -/
def Eases (known : CallbackId → Prop) (m m' : Model) : Prop :=
  m.Orderly → m.Known known → Eased known m m'

namespace Eases

/-- Any number of such changes is one. -/
theorem steady (known : CallbackId → Prop) : Steady (Eases known) where
  refl m h hknown := ⟨h, hknown, .refl known m, fun _ _ hr => hr⟩
  trans hab hbc h hknown := by
    have hb := hab h hknown
    have hc := hbc hb.orderly hb.knows
    exact ⟨hc.orderly, hc.knows, hb.persists.trans hc.persists fun _ hk => hk,
      fun o r hr => hb.registrations o r (hc.registrations o r hr)⟩

/-- Tables that lose entries. -/
theorem fewer (hsize : m.objects.size ≤ m'.objects.size) (hwhole : m.Whole → m'.Whole)
    (hdeeps : m'.deeps = m.deeps)
    (hconnections : ∀ o, (m'.connectionsOf o).Sublist (m.connectionsOf o))
    (hwatchers : ∀ o, (m'.watchersOf o).Sublist (m.watchersOf o))
    (hregistrations : ∀ o, (m'.registrationsOf o).Sublist (m.registrationsOf o))
    (hlast : ∀ o, m.lastIdOf o ≤ m'.lastIdOf o) : Eases known m m' := by
  intro h hknown
  have ht : Tends known m m' := .fewer hsize hdeeps (fun o => (hconnections o).subset)
    (fun o => (hwatchers o).subset) (fun o => (hregistrations o).subset) hlast
  refine ⟨h.fewer (hwhole h.whole) hdeeps hconnections hwatchers hregistrations hlast,
    ⟨fun o c hc k hk => ?_, fun o x hx k hk => ?_, fun d k hk => ?_⟩, ht.persists h,
    fun o => (hregistrations o).subset⟩
  · have hc := (hconnections o).subset hc
    rw [ht.handlerCallback_eq h hc] at hk
    exact hknown.handlers o c hc k hk
  · have hx := (hwatchers o).subset hx
    rw [ht.watchCallback_eq h hx] at hk
    exact hknown.watchers o x hx k hk
  · refine hknown.deeps d k ?_
    unfold handlerCallback deep? at *
    rwa [hdeeps] at hk

/-- A tree that is built again, for a deep watch in use. -/
theorem regrown {id : DeepId} {out gone added : List (ObjectId × Nat)}
    (hr : Regrown id out gone added m m') (hbusy : ∀ x ∈ added, m.Busy id) :
    Eases known m m' := by
  intro h hknown
  have ht : Tends known m m' := .swapped hr.swapped fun x hx => .inl (hbusy x hx)
  exact ⟨h.regrown hr, hknown.swapped hr.swapped, ht.persists h,
    fun o r hmem => hr.swapped.rewatches.registrationsOf o ▸ hmem⟩

end Eases

/-- `m'` has the same tables and deep watches as `m`, and at least the same objects. -/
structure Alike (m m' : Model) : Prop where
  /-- No object is lost. -/
  size : m.objects.size ≤ m'.objects.size
  /-- The deep watches are the same. -/
  deeps : m'.deeps = m.deeps
  /-- The connections are the same. -/
  connectionsOf : ∀ o, m'.connectionsOf o = m.connectionsOf o
  /-- The watchers are the same. -/
  watchersOf : ∀ o, m'.watchersOf o = m.watchersOf o
  /-- The registrations are the same. -/
  registrationsOf : ∀ o, m'.registrationsOf o = m.registrationsOf o
  /-- The last numbers given out are the same. -/
  lastIdOf : ∀ o, m'.lastIdOf o = m.lastIdOf o

/-- A change that does not concern the tables subscribes nothing. -/
theorem Alike.eases (h : Alike m m') (hwhole : m.Whole → m'.Whole) : Eases known m m' := by
  refine .fewer h.size hwhole h.deeps (fun o => ?_) (fun o => ?_) (fun o => ?_) fun o => ?_
  · rw [h.connectionsOf]
  · rw [h.watchersOf]
  · rw [h.registrationsOf]
  · exact Nat.le_of_eq (h.lastIdOf o).symm

/-- Holding other things does not concern the tables. -/
theorem alike_holds (m : Model) (holds : List Hold) : Alike m { m with holds } :=
  ⟨Nat.le_refl _, rfl, fun _ => rfl, fun _ => rfl, fun _ => rfl, fun _ => rfl⟩

/-- A write does not concern the tables. -/
theorem alike_setStore (m : Model) (o : ObjectId) (s : Store) : Alike m (m.setStore o s) where
  size := Nat.le_of_eq (size_modifyObject m o _).symm
  deeps := rfl
  connectionsOf := connectionsOf_setStore m o s
  watchersOf := watchersOf_setStore m o s
  registrationsOf := elim_setStore (·.registrations) [] m o s
  lastIdOf := elim_setStore (·.lastId) 0 m o s

/-! ## What a run leaves to the known functions -/

/-- A change after which registrations are gone only if nothing tells their functions any more. -/
structure Follows (known : CallbackId → Prop) (m m' : Model) : Prop where
  /-- What is so of the known functions stays so. -/
  persists : Persists known m m'
  /-- If a registration is gone, nothing tells its function. -/
  released : ∀ o, ∀ r ∈ m.registrationsOf o, ∀ k, known k → m.Covers r k →
    r ∈ m'.registrationsOf o ∨ m'.Dead k

namespace Follows

/-- Nothing changes. -/
theorem refl (known : CallbackId → Prop) (m : Model) : Follows known m m :=
  ⟨.refl known m, fun _ _ hr _ _ _ => .inl hr⟩

/-- One change after another; functions that become known in between do not matter. -/
theorem trans {known' : CallbackId → Prop} (h : Follows known m m') (h' : Follows known' m' m'')
    (hknown : ∀ k, known k → known' k) : Follows known m m'' where
  persists := h.persists.trans h'.persists hknown
  released o r hr k hk hcovers := by
    rcases h.released o r hr k hk hcovers with hr | hdead
    · exact h'.released o r hr k (hknown k hk) (h.persists.covers r k hk hcovers)
    · exact .inr (h'.persists.dead k (hknown k hk) hdead)

end Follows

/-- Whether a number that an object gave out for the subscription of a function is that of its
registration, as long as anything tells the function. -/
structure Held (m : Model) (o : ObjectId) (id : Nat) (k : CallbackId) : Prop where
  /-- The number was given out. -/
  number : id ≤ m.lastIdOf o
  /-- A registration under the number covers the function. -/
  covers : ∀ r ∈ m.registrationsOf o, r.id = id → m.Covers r k
  /-- There is one, or nothing tells the function. -/
  present : (∃ r ∈ m.registrationsOf o, r.id = id) ∨ m.Dead k

/-- Whether all that tells a function is recorded by a registration of an object or belongs to this
object. -/
def Issued (m : Model) (o : ObjectId) (k : CallbackId) : Prop :=
  (∃ r ∈ m.registrationsOf o, m.Covers r k) ∨ m.Confined o k

/-- A number that was given out stays that of its registration. -/
theorem Follows.held (h : Follows known m m') (hk : known k) {o : ObjectId} {id : Nat}
    (hheld : m.Held o id k) : m'.Held o id k where
  number := Nat.le_trans hheld.number (h.persists.lastIdOf o)
  covers r hr heq := by
    have hold := h.persists.registrations o r hr (heq ▸ hheld.number)
    exact h.persists.covers r k hk (hheld.covers r hold heq)
  present := by
    rcases hheld.present with ⟨r, hr, heq⟩ | hdead
    · exact (h.released o r hr k hk (hheld.covers r hr heq)).imp_left fun hr => ⟨r, hr, heq⟩
    · exact .inr (h.persists.dead k hk hdead)

/-- What tells a function stays recorded where it is. -/
theorem Follows.issued (h : Follows known m m') (hk : known k) {o : ObjectId}
    (hissued : m.Issued o k) : m'.Issued o k := by
  rcases hissued with ⟨r, hr, hcovers⟩ | hconfined
  · rcases h.released o r hr k hk hcovers with hr | hdead
    · exact .inl ⟨r, hr, h.persists.covers r k hk hcovers⟩
    · exact .inr (hdead.confined o)
  · exact .inr (h.persists.confined o k hk hconfined)

end LiveScope.Model
