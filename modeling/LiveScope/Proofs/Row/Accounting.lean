import LiveScope.Proofs.Row.Attempts
import LiveScope.Proofs.Row.Demands

/-!
# Who made what is in the tables

An attempt to bind a row subscribes to the fields of one member after the other, and in the meantime
the client is called and does what it likes. `Underway` accounts for every entry of the tables
during an attempt: it was there at first, or a turn of the client made it, or it belongs to a
registration that the attempt holds the number of; and nothing is missing but what the client took
away. Since numbers are never given out again, and a registration does not go without what it
recorded (`Model.Upholds`), releasing these registrations releases what the attempt made and nothing
else (`Entry.in_unbinds`, `Underway.undo`).
-/

namespace LiveScope

variable {m m' m₀ : Model} {turns : List Turn} {o : ObjectId} {id : Nat} {ids : List Nat}

/-! ## What belongs to a registration -/

namespace Entry

variable {e : Entry}

/-- Whether an entry is the registration of an object with a number, or a connection that it
recorded. -/
def OwnedBy (m : Model) (o : ObjectId) (id : Nat) : Entry → Prop
  | connection p c => ∃ r ∈ m.registrationsOf o, r.id = id ∧ (p, ⟨c.key, c.seq⟩) ∈ r.connections
  | watcher _ _ => False
  | registration p r => p = o ∧ r.id = id

/-- What belongs to a registration belongs to it as long as it is there. -/
theorem OwnedBy.mono (h : e.OwnedBy m o id)
    (hkept : ∀ r ∈ m.registrationsOf o, r.id = id → r ∈ m'.registrationsOf o) :
    e.OwnedBy m' o id := by
  cases e with
  | connection p c =>
    obtain ⟨r, hr, hid, hmem⟩ := h
    exact ⟨r, hkept r hr hid, hid, hmem⟩
  | watcher => exact h
  | registration => exact h

/-- What belongs to a registration under an old number was there, and belonged to it. -/
theorem OwnedBy.of_renews (h : e.OwnedBy m' o id) (hr : m.Renews m') (ht : m.Tidy)
    (hid : id ≤ m.lastIdOf o) : e.OwnedBy m o id ∧ (e.In m' → e.In m) := by
  cases e with
  | connection p c =>
    obtain ⟨r, hmem, rfl, hrecorded⟩ := h
    have hold : r ∈ m.registrationsOf o := In.of_renews (e := .registration o r) hmem hr hid
    exact ⟨⟨r, hold, rfl, hrecorded⟩, fun hc =>
      hc.of_renews hr (ht.recorded o r hold _ hrecorded)⟩
  | watcher => exact h.elim
  | registration p r =>
    obtain ⟨rfl, rfl⟩ := h
    exact ⟨⟨rfl, rfl⟩, fun hc => hc.of_renews hr hid⟩

/-- Releasing a registration without a deep watch takes away what belongs to it, and nothing
else. -/
theorem in_unbind (hn : m.Numbered) (hdeep : ∀ r ∈ m.registrationsOf o, r.id = id → r.deep = none)
    (e : Entry) : e.In (m.unbind o id).2 ↔ e.In m ∧ ¬ e.OwnedBy m o id := by
  cases hreg : m.registration? o id with
  | none =>
    -- Nothing is registered under the number, so nothing belongs to it.
    have hnone : ∀ r ∈ m.registrationsOf o, r.id ≠ id := by
      intro r hr hid
      rw [Model.registration?_eq] at hreg
      exact List.find?_eq_none.1 hreg r hr (beq_iff_eq.2 hid)
    rw [Model.unbind_of_none hreg]
    refine iff_self_and.2 fun he howned => ?_
    cases e with
    | connection p c =>
      obtain ⟨r, hr, hid, _⟩ := howned
      exact hnone r hr hid
    | watcher => exact howned
    | registration p r =>
      obtain ⟨rfl, hid⟩ := howned
      exact hnone r he hid
  | some r =>
    have hfind := hreg
    rw [Model.registration?_eq] at hfind
    have hr : r ∈ m.registrationsOf o := List.mem_of_find?_eq_some hfind
    have hid : r.id = id := by simpa using List.find?_some hfind
    rw [Model.unbind_of_some hreg]
    cases e with
    | connection p c =>
      have hsame : (m.modifyBinding o (·.unregister id)).connectionsOf p = m.connectionsOf p :=
        Model.elim_modifyBinding (·.connections) (fun _ => by rfl) [] m o p
      show c ∈ Model.connectionsOf _ p ↔ _
      rw [Model.connectionsOf_undo, hsame, List.mem_filter, decide_eq_true_eq]
      refine and_congr_right fun _ => not_congr ⟨fun hmem => ⟨r, hr, hid, hmem⟩, ?_⟩
      -- No other registration of the object has the number.
      rintro ⟨r', hr', rfl, hmem⟩
      rwa [Model.eq_of_registration? hn hr' hreg]
    | watcher p x =>
      have hsame : (m.modifyBinding o (·.unregister id)).watchersOf p = m.watchersOf p :=
        Model.elim_modifyBinding (·.watchers) (fun _ => by rfl) [] m o p
      show x ∈ Model.watchersOf _ p ↔ _
      rw [Model.undo_of_none (hdeep r hr hid),
        (Model.disconnects_disconnectAll _ _).watchersOf, hsame]
      exact (and_iff_left not_false).symm
    | registration p r' =>
      show r' ∈ Model.registrationsOf _ p ↔ _
      rw [Model.registrationsOf_undo, Model.mem_registrationsOf_unregister]
      rfl

/-- Releasing registrations without deep watches takes away what belongs to them, and nothing
else. -/
theorem in_unbinds (hn : m.Numbered)
    (hdeep : ∀ r ∈ m.registrationsOf o, r.id ∈ ids → r.deep = none) (e : Entry) :
    e.In (ids.foldl (fun m id => (m.unbind o id).2) m) ↔
      e.In m ∧ ∀ id ∈ ids, ¬ e.OwnedBy m o id := by
  induction ids generalizing m with
  | nil => exact (and_iff_left nofun).symm
  | cons id ids ih =>
    have hfirst := in_unbind hn fun r hr hid => hdeep r hr (hid ▸ List.mem_cons_self)
    have hregistered (r : Registration) := hfirst (.registration o r)
    have hn' : (m.unbind o id).2.Numbered :=
      (Model.renews_alters.unbind m o id).numbered hn
    rw [List.foldl_cons, ih hn' fun r hr hmem =>
      hdeep r ((hregistered r).1 hr).1 (List.mem_cons_of_mem _ hmem), hfirst]
    simp only [List.mem_cons, forall_eq_or_imp, and_assoc]
    refine and_congr_right fun _ => and_congr_right fun hfree => forall₂_congr fun id' hid' =>
      not_congr ⟨fun h => h.mono fun r hr _ => ((hregistered r).1 hr).1, fun h => ?_⟩
    -- A registration under another number is still there, and one under this number has nothing.
    by_cases hsame : id' = id
    · exact absurd (hsame ▸ h) hfree
    · exact h.mono fun r hr hid => (hregistered r).2 ⟨hr, fun howned => hsame (hid ▸ howned.2)⟩

end Entry

namespace Model

/-- What becomes of a model when connections are made and registered from an object. -/
structure Enrols (o : ObjectId) (r : Registration) (m m' : Model) : Prop where
  /-- The registration is there. -/
  registered : r ∈ m'.registrationsOf o
  /-- It is of no deep watch. -/
  deep : r.deep = none
  /-- No entry is lost. -/
  kept : ∀ e : Entry, e.In m → e.In m'
  /-- An entry that was not there is the registration or belongs to it. -/
  added : ∀ e : Entry, e.In m' → e.In m ∨ e.OwnedBy m' o r.id
  /-- No other registration of the object is new. -/
  registrations : ∀ r' ∈ m'.registrationsOf o, r' ∈ m.registrationsOf o ∨ r' = r
  /-- The number of the registration is new. -/
  number : m.lastIdOf o < r.id
  /-- So are those of the connections that it records. -/
  fresh : ∀ x ∈ r.connections, m.lastIdOf x.1 < x.2.seq

/-- Connections that were made are enrolled when they are registered. -/
theorem enrols_register {m₁ : Model} {news : ObjectId → List Connection}
    {made : List (ObjectId × SubscriptionId)} (hb : m₁.isBound o = true)
    (hsub : Subscribes news m m₁)
    (hmade : ∀ p, ∀ c ∈ news p, (p, (⟨c.key, c.seq⟩ : SubscriptionId)) ∈ made)
    (hfresh : ∀ x ∈ made, m.lastIdOf x.1 < x.2.seq) :
    Enrols o ⟨m₁.nextId o, made, none⟩ m (m₁.register o made none).2 := by
  have hconnections (p : ObjectId) :
      (m₁.register o made none).2.connectionsOf p = m.connectionsOf p ++ news p :=
    (hsub.register o made none).connectionsOf p
  have hwatchers (p : ObjectId) :
      (m₁.register o made none).2.watchersOf p = m.watchersOf p :=
    (elim_modifyBinding (·.watchers) (fun _ => by rfl) [] m₁ o p).trans (hsub.watchersOf p)
  -- The registration is the one entry that is new beside the connections.
  have hmem {p : ObjectId} {r : Registration} :
      r ∈ (m₁.register o made none).2.registrationsOf p ↔
        r ∈ m.registrationsOf p ∨ p = o ∧ r = ⟨m₁.nextId o, made, none⟩ := by
    rw [registrationsOf_register hb made none p, hsub.registrationsOf, List.mem_append]
    refine or_congr_right ?_
    split <;> simp [*]
  exact {
    registered := hmem.2 (.inr ⟨rfl, rfl⟩)
    deep := rfl
    kept := fun e he => by
      cases e with
      | connection p c =>
        show c ∈ connectionsOf _ p
        rw [hconnections]
        exact List.mem_append_left _ he
      | watcher p x =>
        show x ∈ watchersOf _ p
        rw [hwatchers]
        exact he
      | registration p r => exact hmem.2 (.inl he)
    added := fun e he => by
      cases e with
      | connection p c =>
        have hc : c ∈ connectionsOf _ p := he
        rw [hconnections] at hc
        refine (List.mem_append.1 hc).imp_right fun hnew => ?_
        exact ⟨_, hmem.2 (.inr ⟨rfl, rfl⟩), rfl, hmade p c hnew⟩
      | watcher p x =>
        have hx : x ∈ watchersOf _ p := he
        rw [hwatchers] at hx
        exact .inl hx
      | registration p r =>
        refine (hmem.1 he).imp_right ?_
        rintro ⟨rfl, rfl⟩
        exact ⟨rfl, rfl⟩
    registrations := fun r hr => (hmem.1 hr).imp_right And.right
    number := by
      have hle := hsub.lastIdOf o
      show m.lastIdOf o < m₁.nextId o
      rw [nextId_eq]
      omega
    fresh := hfresh }

/-- A subscription to several names that succeeds does nothing, or makes connections and registers
them. -/
theorem enrols_bindFields {names : List ScopedName} {handler : ScopedName → Handler}
    {id : Option Nat} (hb : m.isBound o = true)
    (h : bindFields o names handler m = (.ok id, m')) :
    id = none ∧ m' = m ∨ ∃ r, id = some r.id ∧ Enrols o r m m' := by
  rw [bindFields_eq] at h
  split at h
  · -- There are no names.
    obtain ⟨hid, rfl⟩ := Prod.mk.inj h
    exact .inl ⟨(Except.ok.inj hid).symm, rfl⟩
  · cases hc : connectFields o handler names [] m with
    | mk res m₁ =>
      rw [hc] at h
      cases res with
      | error => cases h
      | ok made =>
        obtain ⟨hid, rfl⟩ := Prod.mk.inj h
        obtain ⟨news, added, hmade, hsub, hnews, hfresh⟩ := connectFields_of_ok hc
        obtain rfl : made = added := hmade
        exact .inr ⟨_, (Except.ok.inj hid).symm, enrols_register (hsub.isBound o hb) hsub
          (fun p c hc => (hnews p c hc).1) hfresh⟩

/-- A subscription to several names that fails leaves the tables as they are. -/
theorem in_bindFields_of_error {names : List ScopedName} {handler : ScopedName → Handler}
    {fault : Fault} (hn : m.Numbered) (h : bindFields o names handler m = (.error fault, m'))
    (e : Entry) : e.In m' ↔ e.In m := by
  rw [bindFields_eq] at h
  split at h
  · cases h
  · cases hc : connectFields o handler names [] m with
    | mk res m₁ =>
      rw [hc] at h
      cases res with
      | ok => cases h
      | error =>
        obtain ⟨_, rfl⟩ := Prod.mk.inj h
        have hsub := subscribes_of_refused hn.connection_le hc
        cases e with
        | connection p c =>
          show c ∈ connectionsOf _ p ↔ _
          rw [hsub.connectionsOf, List.append_nil]
          rfl
        | watcher p x =>
          show x ∈ watchersOf _ p ↔ _
          rw [hsub.watchersOf]
          rfl
        | registration p r =>
          show r ∈ registrationsOf _ p ↔ _
          rw [hsub.registrationsOf]
          rfl

end Model

/-! ## Accounting during an attempt -/

/-- Whether an entry was there at first or was made in a turn. -/
def Entry.Foreign (m₀ : Model) (turns : List Turn) (e : Entry) : Prop :=
  e.In m₀ ∨ ∃ t ∈ turns, t.Makes e

/-- A model after an attempt, against the one before and the turns in between: what is in the tables
is not the work of the attempt, nor is it what is missing there. -/
structure RolledBack (m₀ : Model) (turns : List Turn) (m : Model) : Prop where
  /-- What is there was there before, or a turn made it. -/
  installed : ∀ e : Entry, e.In m → e.In m₀ ∨ ∃ t ∈ turns, t.Makes e
  /-- What was there before or was made in a turn is there, or a turn took it away. -/
  released : ∀ e : Entry, (e.In m₀ ∨ ∃ t ∈ turns, t.Makes e) → e.In m ∨ ∃ t ∈ turns, t.Takes e

/-- The model in the middle of an attempt that has made registrations with the given numbers at an
object. -/
structure Underway (m₀ : Model) (turns : List Turn) (o : ObjectId) (ids : List Nat) (m : Model) :
    Prop where
  /-- The model is tidy. -/
  tidy : m.Tidy
  /-- The object has a binding. -/
  bound : m.isBound o = true
  /-- The numbers were given out. -/
  issued : ∀ id ∈ ids, id ≤ m.lastIdOf o
  /-- Their registrations are of no deep watch. -/
  deepless : ∀ r ∈ m.registrationsOf o, r.id ∈ ids → r.deep = none
  /-- The numbers of entries that were there or made in turns were given out. -/
  known : ∀ e, Entry.Foreign m₀ turns e → e.number ≤ m.lastIdOf e.object
  /-- Every other entry belongs to one of the registrations. -/
  accounted : ∀ e, e.In m → Entry.Foreign m₀ turns e ∨ ∃ id ∈ ids, e.OwnedBy m o id
  /-- An entry that was there or made in a turn is there, or was taken away in a turn. -/
  kept : ∀ e, Entry.Foreign m₀ turns e → e.In m ∨ ∃ t ∈ turns, t.Takes e
  /-- It belongs to none of the registrations. -/
  apart : ∀ e, e.In m → Entry.Foreign m₀ turns e → ∀ id ∈ ids, ¬ e.OwnedBy m o id

namespace Underway

/-- Nothing has been done yet. -/
theorem start (ht : m.Tidy) (hb : m.isBound o = true) : Underway m [] o [] m where
  tidy := ht
  bound := hb
  issued := nofun
  deepless := nofun
  known _ he := (he.resolve_right nofun).number_le ht.numbered
  accounted _ he := .inl (.inl he)
  kept _ he := .inl (he.resolve_right nofun)
  apart _ _ _ := nofun

/-- The tables are the same. -/
theorem of_same (h : Underway m₀ turns o ids m) (hu : m.Upholds m')
    (hsame : ∀ e : Entry, e.In m' ↔ e.In m) : Underway m₀ turns o ids m' := by
  have howned (e : Entry) (id : Nat) : e.OwnedBy m' o id ↔ e.OwnedBy m o id :=
    ⟨fun h => h.mono fun r hr _ => (hsame (.registration o r)).1 hr,
      fun h => h.mono fun r hr _ => (hsame (.registration o r)).2 hr⟩
  exact {
    tidy := hu.tidy h.tidy
    bound := hu.renews.isBound o h.bound
    issued := fun id hid => Nat.le_trans (h.issued id hid) (hu.renews.lastIdOf o)
    deepless := fun r hr => h.deepless r ((hsame (.registration o r)).1 hr)
    known := fun e he => Nat.le_trans (h.known e he) (hu.renews.lastIdOf e.object)
    accounted := fun e he => by
      simp only [howned]
      exact h.accounted e ((hsame e).1 he)
    kept := fun e he => (h.kept e he).imp_left (hsame e).2
    apart := fun e he hforeign id hid howns =>
      h.apart e ((hsame e).1 he) hforeign id hid ((howned e id).1 howns) }

/-- The client has had a turn. -/
theorem turn (h : Underway m₀ turns o ids m) (hu : m.Upholds m') :
    Underway m₀ (turns ++ [⟨m, m'⟩]) o ids m' := by
  have hforeign {e : Entry} (he : e.Foreign m₀ (turns ++ [⟨m, m'⟩])) :
      e.Foreign m₀ turns ∨ ¬ e.In m ∧ e.In m' := by
    rcases he with he | ⟨t, ht, hmakes⟩
    · exact .inl (.inl he)
    · rcases List.mem_append.1 ht with ht | ht
      · exact .inl (.inr ⟨t, ht, hmakes⟩)
      · obtain rfl := List.mem_singleton.1 ht
        exact .inr hmakes
  have hstill {e : Entry} (he : e.Foreign m₀ turns) : e.Foreign m₀ (turns ++ [⟨m, m'⟩]) :=
    he.imp_right fun ⟨t, ht, hmakes⟩ => ⟨t, List.mem_append_left _ ht, hmakes⟩
  have hlast : (⟨m, m'⟩ : Turn) ∈ turns ++ [⟨m, m'⟩] :=
    List.mem_append_right _ (List.mem_singleton_self _)
  exact {
    tidy := hu.tidy h.tidy
    bound := hu.renews.isBound o h.bound
    issued := fun id hid => Nat.le_trans (h.issued id hid) (hu.renews.lastIdOf o)
    deepless := fun r hr hid =>
      -- A registration under a number that was issued before is not new.
      have hold := Entry.In.of_renews (e := .registration o r) hr hu.renews (h.issued r.id hid)
      h.deepless r hold hid
    known := fun e he => by
      rcases hforeign he with he | ⟨_, he⟩
      · exact Nat.le_trans (h.known e he) (hu.renews.lastIdOf e.object)
      · exact he.number_le (hu.tidy h.tidy).numbered
    accounted := fun e he => by
      by_cases hold : e.In m
      · rcases h.accounted e hold with hown | ⟨id, hid, howned⟩
        · exact .inl (hstill hown)
        · -- The registration is still there, for else its connections would not be.
          refine .inr ⟨id, hid, ?_⟩
          cases e with
          | connection p c =>
            obtain ⟨r, hr, hrid, hmem⟩ := howned
            refine ⟨r, (hu.undone h.tidy o r hr).resolve_right fun hundone => ?_, hrid, hmem⟩
            exact hundone p c he hmem
          | watcher => exact howned
          | registration => exact howned
      · exact .inl (.inr ⟨_, hlast, hold, he⟩)
    kept := fun e he => by
      rcases hforeign he with he | ⟨_, he⟩
      · rcases h.kept e he with hold | ⟨t, ht, htakes⟩
        · by_cases hnew : e.In m'
          · exact .inl hnew
          · exact .inr ⟨_, hlast, hold, hnew⟩
        · exact .inr ⟨t, List.mem_append_left _ ht, htakes⟩
      · exact .inl he
    apart := fun e he hmade id hid howns => by
      -- What belongs to the attempt is old, so the client did not make it in this turn.
      obtain ⟨howns, hold⟩ := howns.of_renews hu.renews h.tidy (h.issued id hid)
      rcases hforeign hmade with hmade | ⟨hnew, _⟩
      · exact h.apart e (hold he) hmade id hid howns
      · exact hnew (hold he) }

/-- The fields of a formula have been subscribed to. -/
theorem extend {names : List ScopedName} {handler : ScopedName → Handler} {id : Option Nat}
    (h : Underway m₀ turns o ids m) (hfields : Model.bindFields o names handler m = (.ok id, m')) :
    Underway m₀ turns o (ids ++ id.toList) m' := by
  have hu : m.Upholds m' := by
    have := Model.upholds_bindFields h.bound names handler
    rwa [hfields] at this
  rcases Model.enrols_bindFields h.bound hfields with ⟨rfl, rfl⟩ | ⟨r, rfl, hr⟩
  · rwa [show ids ++ none.toList = ids from List.append_nil ids]
  have hid {i : Nat} : i ∈ ids ++ (some r.id).toList ↔ i ∈ ids ∨ i = r.id := by simp
  have ht := hu.tidy h.tidy
  exact {
    tidy := ht
    bound := hu.renews.isBound o h.bound
    issued := fun i hi => by
      rcases hid.1 hi with hi | rfl
      · exact Nat.le_trans (h.issued i hi) (hu.renews.lastIdOf o)
      · exact Entry.In.number_le (e := .registration o r) hr.registered ht.numbered
    deepless := fun r' hr' hi => by
      rcases hr.registrations r' hr' with hold | rfl
      · refine h.deepless r' hold ((hid.1 hi).resolve_right fun heq => ?_)
        have hle := Entry.In.number_le (e := .registration o r') hold h.tidy.numbered
        have hlt := hr.number
        rw [← heq] at hlt
        exact Nat.not_lt.2 hle hlt
      · exact hr.deep
    known := fun e he => Nat.le_trans (h.known e he) (hu.renews.lastIdOf e.object)
    accounted := fun e he => by
      -- A new entry belongs to the new registration, and an old one to whom it belonged before.
      rcases hr.added e he with hold | howned
      · refine (h.accounted e hold).imp_right fun ⟨i, hi, howned⟩ => ⟨i, hid.2 (.inl hi), ?_⟩
        exact howned.mono fun r' hr' _ => hr.kept (.registration o r') hr'
      · exact .inr ⟨r.id, hid.2 (.inr rfl), howned⟩
    kept := fun e he => (h.kept e he).imp_left (hr.kept e)
    apart := fun e he hforeign i hi howns => by
      have hle := h.known e hforeign
      have hold := he.of_renews hu.renews hle
      have hlt := hr.number
      rcases hid.1 hi with hi | rfl
      · exact h.apart e hold hforeign i hi
          (howns.of_renews hu.renews h.tidy (h.issued i hi)).1
      · -- What belongs to the new registration has new numbers, which others' entries do not have.
        cases e with
        | connection p c =>
          obtain ⟨r', hr', heq, hmem⟩ := howns
          rcases hr.registrations r' hr' with hold' | rfl
          · have hle' := Entry.In.number_le (e := .registration o r') hold' h.tidy.numbered
            have : r'.id ≤ m.lastIdOf o := hle'
            omega
          · exact Nat.not_lt.2 hle (hr.fresh _ hmem)
        | watcher => exact howns
        | registration p r' =>
          obtain ⟨rfl, heq⟩ := howns
          have : r'.id ≤ m.lastIdOf p := hle
          omega }

/-- Without registrations there is nothing to roll back. -/
theorem rolledBack (h : Underway m₀ turns o [] m) : RolledBack m₀ turns m where
  installed e he := (h.accounted e he).resolve_right nofun
  released := h.kept

/-- When the registrations are released, nothing is left of the attempt. -/
theorem undo {row : BoundRow} (h : Underway m₀ turns row.scope row.ids m)
    (halive : m.isAlive row.scope = true) : RolledBack m₀ turns (row.undo m) := by
  have hin := Entry.in_unbinds h.tidy.numbered h.deepless
  unfold BoundRow.undo
  rw [if_pos halive]
  refine ⟨fun e he => ?_, fun e he => (h.kept e he).imp_left fun hold => ?_⟩
  · obtain ⟨hold, hfree⟩ := (hin e).1 he
    exact (h.accounted e hold).resolve_right fun ⟨i, hi, howned⟩ => hfree i hi howned
  · exact (hin e).2 ⟨hold, h.apart e hold he⟩

end Underway

end LiveScope
