import LiveScope.Proofs.Deep.Mirroring

/-!
# Writes keep a deep watch mirroring

An operation on an object that leaves a deep watch the possibility to follow (`Operation.Allowed`)
takes a deep watch that mirrors its property to one that mirrors it again
(`Mirroring.run_mirroring`). The function of the deep watch is told the value of the property
exactly if the operation concerns the property: it writes it, or the object it is performed on can
be reached from the value (`Operation.Concerns`).

An operation on the property itself is one dispatch of the property, and what the deep watch had
before does not matter but for being a tree of what is there. Any other operation is a dispatch for
each announcement, of which the first mends the nodes for the object.
-/

namespace LiveScope

open Relation (TransGen)

namespace Model

variable {m m' : Model} {d : DeepId} {r o : ObjectId} {p : String} {k : CallbackId} {V : Value}
  {s : Store}

/-- Whether an object can be reached from the value of a property. -/
def Inside (m : Model) (r : ObjectId) (p : String) (o : ObjectId) : Prop :=
  ∃ q, m.get r p = .object q ∧ m.Reaches q o

/-- An object has watchers of a deep watch that mirrors exactly if it is inside the value of the
property. -/
theorem Attached.menders_ne_nil_iff (h : m.Attached d r p k V) :
    m.menders d o ≠ [] ↔ m.Inside r p o := by
  -- The watchers are the nodes, and the nodes are what can be reached.
  have hnodes : m.menders d o ≠ [] ↔ ∃ n, (o, n) ∈ m.watched d := by
    rw [menders_ne_nil]
    constructor
    · rintro ⟨⟨n, watch⟩, hmem, rfl⟩
      exact ⟨n, (h.nodes o n).2 hmem⟩
    · rintro ⟨n, hn⟩
      exact ⟨_, (h.nodes o n).1 hn, rfl⟩
  have hroot := h.root
  unfold watchedRoot at hroot
  unfold Inside
  rw [hnodes, h.value]
  unfold watched
  cases ht : m.tree? d with
  | none =>
    rw [ht] at hroot
    refine iff_of_false ?_ ?_
    · rintro ⟨n, hn⟩
      cases hn
    · rintro ⟨q, rfl, _⟩
      cases hroot
  | some t =>
    rw [ht] at hroot
    have hreaches := (h.mirrors t ht).mem_watchers_iff (o := o)
    refine hreaches.trans ⟨fun hreach => ⟨t.object, ?_, hreach⟩, ?_⟩
    · exact Value.object?_eq_some_iff.1 hroot.symm
    · rintro ⟨q, rfl, hreach⟩
      have hobject : t.object = q := Option.some.inj hroot
      rw [hobject]
      exact hreach

/-- The object that a property belongs to is not inside its value. -/
theorem Attached.menders_self (h : m.Attached d r p k V) : m.menders d r = [] := by
  by_contra hne
  obtain ⟨q, hq, hreach⟩ := h.menders_ne_nil_iff.1 hne
  have hcontains : m.Contains r q := Store.get_mem_values hq
  have hacyclic := (h.within q (h.value.symm.trans hq)).acyclic
  exact hacyclic (TransGen.tail'_iff.2 ⟨r, hreach, hcontains⟩)

/-- A write that leaves an object where it is, or at most changes an object that has no watchers of
the deep watch, leaves a tree mirroring. -/
theorem Attached.mirrors_setStore (h : m.Attached d r p k V)
    (hsame : m.menders d o ≠ [] → (m.setStore o s).members o = m.members o) :
    ∀ t ∈ (m.setStore o s).tree? d, t.Mirrors (m.setStore o s) := by
  intro t ht
  change m.tree? d = some t at ht
  refine (h.mirrors t ht).imp fun q n labels hmem heq => ?_
  by_cases hq : q = o
  · subst hq
    have hnode : ⟨n, .mend d⟩ ∈ m.watchersOf q :=
      (h.nodes q n).1 (watched_of_tree? ht ▸ hmem)
    rw [hsame (List.ne_nil_of_mem (mem_menders.2 ⟨hnode, rfl⟩))]
    exact heq
  · have hstore : (m.setStore o s).store q = m.store q := store_setStore_of_ne hq
    rw [members_congr hstore]
    exact heq

end Model

namespace Operation

variable (d : DeepId) (r : ObjectId) (p : String) (listen : Listener History) (o : ObjectId)
  (op : Operation) (w : World History)

/-- The world in which the announcements of an operation are told of. -/
def written (μ : Mutation) : World History :=
  (w.mapModel (·.setStore μ.object μ.store)).mapModel (·.holdAll μ.holds)

/-- Whether an operation is one that a deep watch of the property `p` of `r` can follow: it names
what exists, and an index as a list writes it; the value of the property stays at most `maxDepth`
objects deep; and if it changes something inside the value, the object of the property stays alive
while its announcements are told of. -/
structure Allowed : Prop where
  /-- The operation is performed on an object that exists. -/
  exist : o < w.model.objects.size
  /-- What is written exists. -/
  known : ∀ q, op.value? = some (.object q) → q < w.model.objects.size
  /-- An index is written as a list writes it. -/
  spelled : op.Spelled w.model o
  /-- The value of the property is not too deep afterwards. -/
  within : ∀ μ, op.mutation? w.model o = .ok μ → ∀ q,
    (w.model.setStore o μ.store).get r p = .object q →
      (w.model.setStore o μ.store).Within maxDepth q
  /-- The object of the property stays alive when something inside its value is told of. -/
  alive : w.model.Inside r p o → ∀ μ, op.mutation? w.model o = .ok μ →
    ∀ told a, told ++ [a] <+: μ.announcements →
      World.StaysAlive r listen o a.1 a.2 (Mutation.announce listen o told (written w μ))

/-- Whether an operation writes a property, or changes something inside its value. -/
def Concerns : Prop :=
  (o = r ∧ op.key? = some p) ∨ w.model.Inside r p o

variable {r p listen o op w} {m : Model} {μ : Mutation}

/-- An operation on a map names one key, and changes and tells of that alone. -/
theorem key?_of_map (hmap : (m.store o).isList = false) (h : op.mutation? m o = .ok μ) :
    ∃ key v, op.key? = some key ∧ μ.announcements = [(key, v)] ∧
      ∀ k, μ.store.get k = if k = key then v else (m.store o).get k := by
  obtain ⟨key, v, hannounced, hop, hget⟩ := mutation?_of_map hmap h
  refine ⟨key, v, ?_, hannounced, hget⟩
  rcases hop with rfl | ⟨rfl, _⟩ <;> rfl

/-- An operation that does not write a property does not tell of it. -/
theorem not_announced (hmap : (m.store r).isList = false) (h : op.mutation? m o = .ok μ)
    (hother : ¬ (o = r ∧ op.key? = some p)) : ∀ a ∈ μ.announcements, o = r → a.1 ≠ p := by
  rintro a ha rfl heq
  obtain ⟨key, v, hkey, hannounced, _⟩ := key?_of_map hmap h
  rw [hannounced] at ha
  obtain rfl := List.mem_singleton.1 ha
  obtain rfl : key = p := heq
  exact hother ⟨rfl, hkey⟩

/-- If the client holds the object of a property and gives it up never, the object stays alive while
an operation is told of. -/
theorem alive_of_held (hlisten : ∀ n u, World.Keeps (.object r) u (listen n u))
    (hheld : .object r ∈ w.model.holds) (hexists : r < w.model.objects.size)
    (μ : Mutation) (told : List (String × Value)) (a : String × Value) :
    World.StaysAlive r listen o a.1 a.2 (Mutation.announce listen o told (written w μ)) := by
  have hsize : (w.model.setStore μ.object μ.store).objects.size = w.model.objects.size :=
    Model.size_modifyObject w.model μ.object _
  have hwritten : World.Keeps (.object r) w (written w μ) := by
    refine ⟨Nat.le_of_eq hsize.symm, ?_⟩
    show _ ≤ (μ.holds ++ w.model.holds).count _
    rw [List.count_append]
    exact Nat.le_add_left _ _
  have hkeeps : World.Keeps (.object r) w (Mutation.announce listen o told (written w μ)) :=
    (World.Keeps.steady _).trans hwritten (World.announce_keeps hlisten o told _)
  exact World.staysAlive_of_held hlisten (hkeeps.mem hheld)
    (Nat.lt_of_lt_of_le hexists hkeeps.size) o a.1 a.2

end Operation

namespace Mirroring

variable {d : DeepId} {r o : ObjectId} {p : String} {k : CallbackId} {V : Value}
  {listen : Listener History} {op : Operation} {w : World History} {μ : Mutation}

/-- A deep watch that can follow an operation is tended when the operation is told of. -/
theorem tended_written (h : w.model.Mirroring d r p k V) (hallowed : op.Allowed r p listen o w)
    (hμ : op.mutation? w.model o = .ok μ) : (w.model.setStore o μ.store).Tended d r p k := by
  refine h.tended.setStore (Operation.isList_of_mutation? hμ) fun q hq => ?_
  rcases Operation.object_mem_of_mutation? hμ (.inl hq) with hold | hnew
  · exact h.tended.whole o q hold
  · exact hallowed.known q hnew

/-- What an operation holds does not matter to a deep watch. -/
theorem aside_written (d : DeepId) (k : CallbackId) (w : World History) (μ : Mutation) :
    Model.Aside d k (w.model.setStore μ.object μ.store) (Operation.written w μ).model :=
  Model.aside_holds d k (w.model.setStore μ.object μ.store) (μ.holds ++ w.model.holds)

/-- The watchers of a deep watch are there when an operation is told of. -/
theorem menders_written (d : DeepId) (w : World History) (μ : Mutation) (q : ObjectId) :
    (Operation.written w μ).model.menders d q = w.model.menders d q :=
  Model.menders_setStore w.model μ.object μ.store q

/-- What is told of exists. -/
theorem known_written (h : w.model.Mirroring d r p k V) (hallowed : op.Allowed r p listen o w)
    (hμ : op.mutation? w.model o = .ok μ) {a : String × Value} (ha : a ∈ μ.announcements)
    {q : ObjectId} (hq : a.2 = .object q) : q < (w.model.setStore o μ.store).objects.size := by
  have hsize : (w.model.setStore o μ.store).objects.size = w.model.objects.size :=
    Model.size_modifyObject w.model o _
  rw [hsize]
  rcases Operation.object_mem_of_mutation? hμ (.inr ⟨a, ha, hq⟩) with hold | hnew
  · exact h.tended.whole o q hold
  · exact hallowed.known q hnew

/-- An operation that does not tell of the property leaves its value. -/
theorem rooted_written (h : w.model.Mirroring d r p k V) (hallowed : op.Allowed r p listen o w)
    (hμ : op.mutation? w.model o = .ok μ) (hothers : ∀ a ∈ μ.announcements, o = r → a.1 ≠ p) :
    (w.model.setStore o μ.store).Rooted d r p V := by
  have hvalue : (w.model.setStore o μ.store).get r p = V :=
    (Operation.get_setStore_of_others h.tended.placed.map hμ hothers).trans h.value
  exact ⟨hvalue, fun q hq => hallowed.within μ hμ q (hvalue.trans hq), h.root⟩

/-- If the nodes for the object of an operation stay as they are, the deep watch mirrors when the
operation begins to be told of. -/
theorem mirroring_written (h : w.model.Mirroring d r p k V)
    (hallowed : op.Allowed r p listen μ.object w) (hμ : op.mutation? w.model μ.object = .ok μ)
    (hothers : ∀ a ∈ μ.announcements, μ.object = r → a.1 ≠ p)
    (hsame : w.model.menders d μ.object ≠ [] →
      (w.model.setStore μ.object μ.store).members μ.object = w.model.members μ.object) :
    (Operation.written w μ).model.Mirroring d r p k V :=
  Model.Mirroring.aside ⟨rooted_written h hallowed hμ hothers, tended_written h hallowed hμ,
    h.attached.mirrors_setStore hsame⟩ (aside_written d k w μ)

/-- When an operation that does not tell of the property begins to be told of, the nodes for its
object are behind. -/
theorem amid_written (h : w.model.Mirroring d r p k V)
    (hallowed : op.Allowed r p listen μ.object w) (hμ : op.mutation? w.model μ.object = .ok μ)
    (hothers : ∀ a ∈ μ.announcements, μ.object = r → a.1 ≠ p) {a : String × Value}
    {rest : List (String × Value)} (hlist : μ.announcements = a :: rest) :
    (Operation.written w μ).model.Amid d r p k V μ.object a.1 a.2 (w.model.members μ.object)
      (((Operation.written w μ).model.menders d μ.object).map (·.seq)) := by
  let m := w.model.setStore μ.object μ.store
  have hmem : a ∈ μ.announcements := by
    rw [hlist]
    exact List.mem_cons_self
  have hexist : μ.object < m.objects.size :=
    Nat.lt_of_lt_of_eq hallowed.exist (Model.size_modifyObject w.model μ.object _).symm
  have hstore : m.store μ.object = μ.store := Model.store_setStore_self hallowed.exist
  have helse : ∀ q, q ≠ μ.object → m.store q = w.model.store q :=
    fun q hq => Model.store_setStore_of_ne hq
  have hamends := Operation.amends_of_mutation? hallowed.spelled hμ hstore
  have hfirst : (m.store μ.object).amend a.1 a.2 (w.model.members μ.object) =
      m.members μ.object := by
    rw [hstore]
    exact hamends.first a (by rw [hlist]; rfl)
  have hamid := h.amid (tended_written h hallowed hμ) (rooted_written h hallowed hμ hothers) rfl
    helse hexist (fun q hq => known_written h hallowed hμ hmem hq) hfirst
  have hhold := aside_written d k w μ
  rw [hhold.menders]
  exact hamid.aside hhold

section Listening

variable (hlisten : listen.Passive d r p k)

include hlisten

/-- A write of the property. -/
theorem run_own (h : w.model.Mirroring d r p k V) (hallowed : op.Allowed r p listen r w)
    (hμ : op.mutation? w.model r = .ok μ) (hkey : op.key? = some p) :
    ∃ V', (μ.run listen w).model.Mirroring d r p k V' ∧
      World.Hears k V' True w (μ.run listen w) := by
  obtain rfl := Operation.object_of_mutation? hμ
  obtain ⟨key, v, hop, hannounced, hget⟩ := Operation.key?_of_map h.tended.placed.map hμ
  obtain rfl : key = p := Option.some.inj (hop.symm.trans hkey)
  have htended := tended_written h hallowed hμ
  have hvalue : (w.model.setStore μ.object μ.store).get μ.object key = v := by
    show ((w.model.setStore μ.object μ.store).store μ.object).get key = v
    rw [Model.store_setStore_self h.tended.lt_size, hget, if_pos rfl]
  -- The object of the property is not among the nodes, so that they mirror as before.
  have hself := h.attached.menders_self
  have hmirrors := h.attached.mirrors_setStore (s := μ.store) fun hne => absurd hself hne
  have hhold := aside_written d k w μ
  have hvalue' : (Operation.written w μ).model.get μ.object key = v := hvalue
  have hwithin : ∀ q, v = .object q → (Operation.written w μ).model.Within maxDepth q := by
    intro q hq
    have hdeep := hallowed.within μ hμ q (hvalue.trans hq)
    have hexist : q < (w.model.setStore μ.object μ.store).objects.size :=
      known_written h hallowed hμ (a := (key, v)) (by rw [hannounced]; exact List.mem_cons_self) hq
    exact hdeep.of_grown htended.whole (fun _ _ => rfl) hexist
  have hapart : (Operation.written w μ).model.menders d μ.object = [] := by
    rw [menders_written, hself]
  obtain ⟨hmirroring, hheard⟩ := notify_own (w := Operation.written w μ) hlisten
    (htended.aside hhold) hvalue' hwithin (htended.toNoded.mirrors_aside hhold hmirrors) hapart
  have hrun : μ.run listen w = ((Operation.written w μ).notify listen μ.object key v).mapModel
      (·.releaseAll μ.holds) :=
    μ.run_of_single listen hannounced w
  rw [hrun]
  exact ⟨v, hmirroring.aside (Model.aside_releaseAll d k _ μ.holds), hheard⟩

/-- A write outside the value of the property, whether the object of the property stays alive or
not. -/
theorem run_outside (h : w.model.Mirroring d r p k V) (hallowed : op.Allowed r p listen o w)
    (hμ : op.mutation? w.model o = .ok μ) (hother : ¬ (o = r ∧ op.key? = some p))
    (houtside : ¬ w.model.Inside r p o) :
    (μ.run listen w).model.Mirroring d r p k V ∧ World.Hears k V False w (μ.run listen w) := by
  obtain rfl := Operation.object_of_mutation? hμ
  let u := Operation.written w μ
  have hothers := Operation.not_announced h.tended.placed.map hμ hother
  have hnone : w.model.menders d μ.object = [] := by
    by_contra hne
    exact houtside (h.attached.menders_ne_nil_iff.1 hne)
  have hmirroring : u.model.Mirroring d r p k V :=
    mirroring_written h hallowed hμ hothers fun hne => absurd hnone hne
  have hpassive : World.Passive d k u (Mutation.announce listen μ.object μ.announcements u) := by
    refine announce_apart hlisten hmirroring.tended ?_ ?_ hothers
    · rw [menders_written, hnone]
    · exact fun a ha q hq => known_written h hallowed hμ ha hq
  exact ⟨(hmirroring.aside hpassive.aside).aside (Model.aside_releaseAll d k _ μ.holds),
    hpassive.unheard.hears V⟩

/-- A write inside the value of the property. -/
theorem run_inside (h : w.model.Mirroring d r p k V) (hallowed : op.Allowed r p listen o w)
    (hμ : op.mutation? w.model o = .ok μ) (hother : ¬ (o = r ∧ op.key? = some p))
    (hinside : w.model.Inside r p o) :
    (μ.run listen w).model.Mirroring d r p k V ∧
      (μ.announcements ≠ [] → World.Hears k V True w (μ.run listen w)) := by
  obtain rfl := Operation.object_of_mutation? hμ
  let u := Operation.written w μ
  have hothers := Operation.not_announced h.tended.placed.map hμ hother
  have hstore : (w.model.setStore μ.object μ.store).store μ.object = μ.store :=
    Model.store_setStore_self hallowed.exist
  have hamends := Operation.amends_of_mutation? hallowed.spelled hμ hstore
  have hrun : μ.run listen w = (Mutation.announce listen μ.object μ.announcements u).mapModel
      (·.releaseAll μ.holds) := rfl
  rw [hrun]
  cases hlist : μ.announcements with
  | nil =>
    -- What is not told of changed nothing in the object.
    have hmirroring : u.model.Mirroring d r p k V :=
      mirroring_written h hallowed hμ hothers fun _ => hamends.nothing hlist
    exact ⟨hmirroring.aside (Model.aside_releaseAll d k _ μ.holds), fun hne => absurd rfl hne⟩
  | cons a rest =>
    have hamid := amid_written h hallowed hμ hothers hlist
    have hknown : ∀ b ∈ rest, ∀ q, b.2 = .object q → q < u.model.objects.size := by
      intro b hb q hq
      refine known_written h hallowed hμ (a := b) ?_ hq
      rw [hlist]
      exact List.mem_cons_of_mem a hb
    -- The first announcement brings the nodes up to date, and the others leave it at that.
    have hsettled : ∀ b ∈ rest, (u.model.store μ.object).amend b.1 b.2 (u.model.members μ.object) =
        u.model.members μ.object := by
      intro b hb
      have hu : u.model.store μ.object = μ.store := hstore
      rw [hu]
      refine hamends.rest b ?_
      rw [hlist]
      exact hb
    have halive : ∀ told b, told ++ [b] <+: a :: rest →
        World.StaysAlive r listen μ.object b.1 b.2 (Mutation.announce listen μ.object told u) := by
      rw [← hlist]
      exact hallowed.alive hinside μ hμ
    rw [hlist] at hothers
    obtain ⟨hmirroring, told, hheard, htold⟩ :=
      announce_amid hlisten hamid hknown hsettled hothers halive
    have hnodes : u.model.menders d μ.object ≠ [] := by
      rw [menders_written]
      exact h.attached.menders_ne_nil_iff.2 hinside
    refine ⟨hmirroring.aside (Model.aside_releaseAll d k _ μ.holds), fun _ => ?_⟩
    exact World.Hears.congr hheard (iff_of_true (htold hnodes) trivial)

/-- An operation that a deep watch can follow leaves it mirroring. Its function is told the value of
the property, provided that the operation changes something, exactly if the operation concerns the
property. -/
theorem run_mirroring (h : w.model.Mirroring d r p k V) (hallowed : op.Allowed r p listen o w) :
    ∃ V', (op.run listen o w).model.Mirroring d r p k V' ∧
      ∀ μ, op.mutation? w.model o = .ok μ → μ.announcements ≠ [] →
        World.Hears k V' (op.Concerns r p o w) w (op.run listen o w) := by
  rw [Operation.run_eq]
  cases hμ : op.mutation? w.model o with
  | error => exact ⟨V, h, fun μ hok => by cases hok⟩
  | ok μ =>
    by_cases hown : o = r ∧ op.key? = some p
    · obtain ⟨rfl, hkey⟩ := hown
      obtain ⟨V', hmirroring, hheard⟩ := run_own hlisten h hallowed hμ hkey
      refine ⟨V', hmirroring, fun μ' hok _ => ?_⟩
      obtain rfl := Except.ok.inj hok
      exact hheard.congr (iff_of_true trivial (.inl ⟨rfl, hkey⟩))
    · by_cases hinside : w.model.Inside r p o
      · obtain ⟨hmirroring, hheard⟩ := run_inside hlisten h hallowed hμ hown hinside
        refine ⟨V, hmirroring, fun μ' hok hne => ?_⟩
        obtain rfl := Except.ok.inj hok
        exact (hheard hne).congr (iff_of_true trivial (.inr hinside))
      · obtain ⟨hmirroring, hheard⟩ := run_outside hlisten h hallowed hμ hown hinside
        refine ⟨V, hmirroring, fun μ' hok _ => ?_⟩
        obtain rfl := Except.ok.inj hok
        exact hheard.congr (iff_of_false id (not_or.2 ⟨hown, hinside⟩))

end Listening

end Mirroring

end LiveScope
