import LiveScope.Proofs.Deep.Admission
import LiveScope.Proofs.Deep.Writing
import LiveScope.Proofs.Model.Depth

/-!
# A write is refused exactly if the value is too deep after it

An operation that writes a watched property, or something inside its value, and tells of it
(`Operation.Touches`) is told to the function of the deep watch, and the deep watch refuses nothing
in it exactly if the value of the property is not too deep after it (`Spectating.run_touching`).

Of what an operation tells only the first can be an object. If it is told of the property, the
handler of the deep watch decides by the whole value (`Spectating.settled_own`). If it is told of an
object inside, the nodes for that object decide, each by what fits there, and together they decide
as the whole value does (`Spectating.settled_inside`).
-/

namespace LiveScope

variable {d : DeepId} {r o : ObjectId} {p : String} {k : CallbackId} {V : Value}
  {listen : Listener History} {op : Operation} {w : World History} {μ : Mutation}

/-- What else exists does not matter to whether the value of a property is too deep. -/
theorem Model.Extends.shallow_iff {m m' : Model} (h : m.Extends m') (hwhole : m.Whole)
    (hr : r < m.objects.size) : m'.Shallow maxDepth (m'.get r p) ↔
      ∀ q, m.get r p = .object q → m.Within maxDepth q := by
  have hget : m'.get r p = m.get r p := congrArg (·.get p) (h.store r hr)
  rw [hget, Model.shallow_iff]
  exact forall₂_congr fun q hq =>
    Model.within_iff_of_grown hwhole h.store (hwhole r q (Store.get_mem_values hq))

/-- What a deep watch watches is as deep after a write of the property's object as before, because
it does not lead there. -/
theorem Model.Attached.within_setStore {m : Model} {t : WatchTree} (h : m.Attached d r p k V)
    (ht : m.tree? d = some t) (s : Store) : (m.setStore r s).Within maxDepth t.object := by
  have hV : V = .object t.object := h.eq_object ht
  refine (h.within _ hV).of_changed (fun q hq => Model.store_setStore_of_ne hq) fun hreach => ?_
  exact h.menders_ne_nil_iff.2 ⟨_, h.value.trans hV, hreach⟩ h.menders_self

namespace Operation

/-- If an operation tells of a property, what it tells of before that are other keys, and what it
tells of after it is no object. -/
theorem split_announced {m : Model} {v : Value} (h : op.mutation? m o = .ok μ)
    (hv : (p, v) ∈ μ.announcements) : ∃ pre v post, μ.announcements = pre ++ (p, v) :: post ∧
      (∀ a ∈ pre, a.1 ≠ p) ∧ ∀ a ∈ post, a.2.object? = none := by
  have hsome : (μ.announcements.find? (·.1 = p)).isSome = true :=
    List.find?_isSome.2 ⟨(p, v), hv, decide_eq_true rfl⟩
  obtain ⟨⟨key, v'⟩, hfind⟩ := Option.isSome_iff_exists.1 hsome
  obtain ⟨hkey, pre, post, hsplit, hpre⟩ := List.find?_eq_some_iff_append.1 hfind
  obtain rfl : key = p := of_decide_eq_true hkey
  have hlengths := lengths_of_tail h
  rw [hsplit] at hlengths
  refine ⟨pre, v', post, hsplit, fun a ha => of_decide_eq_false (by simpa using hpre a ha), ?_⟩
  cases pre with
  | nil => exact fun a ha => (hlengths a ha).2.1
  | cons => exact fun a ha =>
      (hlengths a (List.mem_append_right _ (List.mem_cons_of_mem _ ha))).2.1

/-- Whether an operation makes the change `μ`, which writes the property `p` of `r` or something
inside its value, and tells of it: it names what exists, and a list that it is performed on has as
many elements as a machine word can count; and if it changes something inside the value, the object
of the property stays alive while that is told of. -/
structure Touches (r : ObjectId) (p : String) (listen : Listener History) (o : ObjectId)
    (op : Operation) (w : World History) (μ : Mutation) : Prop where
  /-- The operation makes the change. -/
  change : op.mutation? w.model o = .ok μ
  /-- It is performed on an object that exists. -/
  exist : o < w.model.objects.size
  /-- What is written exists. -/
  known : ∀ q, op.value? = some (.object q) → q < w.model.objects.size
  /-- A machine word can count the elements of a list. -/
  countable : (w.model.store o).isList = true → (w.model.store o).size < Nat.pow 2 64
  /-- The change is told of. -/
  tells : μ.announcements ≠ []
  /-- It is one of the property or of something inside its value. -/
  concerns : (o = r ∧ ∃ v, (p, v) ∈ μ.announcements) ∨ w.model.Inside r p o
  /-- The object of the property stays alive when something inside its value is told of. -/
  alive : w.model.Inside r p o → ∀ a ∈ μ.announcements.head?,
    World.StaysAlive r listen o a.1 a.2 (written w μ)

namespace Touches

variable (h : op.Touches r p listen o w μ)

include h

/-- What the operation tells of exists. -/
theorem known_told {a : String × Value} (ha : a ∈ μ.announcements) {q : ObjectId}
    (hwhole : w.model.Whole) (hq : a.2 = .object q) : q < w.model.objects.size := by
  rcases object_mem_of_mutation? h.change (.inr ⟨a, ha, hq⟩) with hold | hnew
  · exact hwhole o q hold
  · exact h.known q hnew

/-- What is in the object after the operation exists. -/
theorem known_stored (hwhole : w.model.Whole) {q : ObjectId} (hq : .object q ∈ μ.store.values) :
    q < w.model.objects.size := by
  rcases object_mem_of_mutation? h.change (.inl hq) with hold | hnew
  · exact hwhole o q hold
  · exact h.known q hnew

/-- What the operation puts somewhere exists. -/
theorem whole (hwhole : w.model.Whole) : (w.model.setStore o μ.store).Whole := by
  intro q q' hq
  refine Nat.lt_of_lt_of_eq ?_ (Model.size_modifyObject w.model o _).symm
  by_cases hqo : q = o
  · rw [hqo, Model.store_setStore_self h.exist] at hq
    exact h.known_stored hwhole hq
  · rw [Model.store_setStore_of_ne hqo] at hq
    exact hwhole q q' hq

/-- What exists after the operation exists. -/
theorem whole_run {d : DeepId} {k : CallbackId} (hlisten : listen.Spectates d r p k)
    (hwhole : w.model.Whole) : (op.run listen o w).model.Whole := by
  obtain rfl := object_of_mutation? h.change
  have hwritten : (written w μ).model.Whole := h.whole hwhole
  rw [run_eq, h.change]
  exact (Model.aside_releaseAll d k _ μ.holds).whole
    ((Spectating.announce_onlooks hlisten μ.object μ.announcements _).whole hwritten)

/-- At what the operation tells of there is the object that it tells of, if it is one. -/
theorem object?_get {a : String × Value} (ha : a ∈ μ.announcements) :
    ((w.model.setStore o μ.store).get o a.1).object? = a.2.object? := by
  show (((w.model.setStore o μ.store).store o).get a.1).object? = a.2.object?
  rw [Model.store_setStore_self h.exist]
  exact object?_get_of_announced h.change h.countable a ha

/-- What it tells of as an object is in the object that it is performed on. -/
theorem contains_told {a : String × Value} (ha : a ∈ μ.announcements) {q : ObjectId}
    (hq : a.2 = .object q) : (w.model.setStore o μ.store).Contains o q := by
  have hget := h.object?_get ha
  rw [hq] at hget
  exact Store.get_mem_values (Value.object?_eq_some_iff.1 hget)

/-- What is in the object after the operation was there before, or is what is told of first. -/
theorem contains_or_head {q : ObjectId} (hq : (w.model.setStore o μ.store).Contains o q) :
    w.model.Contains o q ∨ ∃ a ∈ μ.announcements.head?, a.2 = .object q := by
  unfold Model.Contains at hq
  rw [Model.store_setStore_self h.exist] at hq
  exact object_mem_or_head h.change hq

/-- What is known after the operation about a tree that mirrored the model before. -/
theorem marked {t : WatchTree} {key : String} {v : Value} (hattached : w.model.Attached d r p k V)
    (htree : w.model.tree? d = some t) (ha : (key, v) ∈ μ.announcements) :
    (w.model.setStore o μ.store).Marked o key v t := by
  have hsize : (w.model.setStore o μ.store).objects.size = w.model.objects.size :=
    Model.size_modifyObject w.model o _
  have hV : V = .object t.object := hattached.eq_object htree
  have hmirrors := hattached.mirrors t htree
  have hwithin := hattached.within _ hV
  constructor
  case whole => exact h.whole hattached.whole
  case known => exact fun q hv => Nat.lt_of_lt_of_eq (h.known_told ha hattached.whole hv) hsize.symm
  case length =>
    rintro ⟨rfl, hlength⟩
    rw [← h.object?_get ha]
    exact Store.object?_get_lengthKey hlength
  case exist =>
    intro x hx
    have hnode : x ∈ w.model.watched d := Model.watched_of_tree? htree ▸ hx
    exact Nat.lt_of_lt_of_eq (hattached.toNoded.lt_size hnode) hsize.symm
  case apart => exact fun n depth s hfind n' => hmirrors.apart hwithin hfind
  case below =>
    exact fun n depth s => hmirrors.within_below hwithin fun q hq => Model.store_setStore_of_ne hq

end Touches

end Operation

/-- Whether a deep watch for the function `k` settles a change when it is told of: the function is
told, and the deep watch refuses nothing exactly if the value of the property `p` of `r` is not too
deep after the change. -/
def Mutation.Settled (d : DeepId) (r : ObjectId) (p : String) (k : CallbackId)
    (listen : Listener History) (w : World History) (μ : Mutation) : Prop :=
  World.Told k (Operation.written w μ)
      (announce listen μ.object μ.announcements (Operation.written w μ)) ∧
    (refusals d listen μ.object μ.announcements (Operation.written w μ) = [] ↔
      ∀ q, (w.model.setStore μ.object μ.store).get r p = .object q →
        (w.model.setStore μ.object μ.store).Within maxDepth q)

namespace Spectating

section Listening

variable (hlisten : listen.Spectates d r p k)

include hlisten

/-- Announcements that the connection of a deep watch is not part of, of an object that is not among
the nodes, leave the deep watch as it is, and it refuses nothing in them. -/
theorem announce_other (as : List (String × Value)) (h : w.model.Posted d r p k)
    (hapart : w.model.menders d o = [])
    (hknown : ∀ a ∈ as, ∀ q, a.2 = .object q → q < w.model.objects.size)
    (hother : ∀ a ∈ as, o = r → a.1 ≠ p) :
    Model.Aside d k w.model (Mutation.announce listen o as w).model ∧
      Mutation.refusals d listen o as w = [] := by
  induction as generalizing w with
  | nil => exact ⟨(Model.Aside.steady d k).refl w.model, rfl⟩
  | cons a rest ih =>
    have hothers : ∀ r' ∈ w.model.recipients o a.1, ¬ r'.Attends d := by
      intro r' hr' hattends
      rcases List.mem_append.1 hr' with hr' | hr'
      · obtain ⟨c, hc, rfl⟩ := List.mem_map.1 hr'
        obtain ⟨ho, hkey⟩ := h.follower hc hattends
        exact hother a List.mem_cons_self ho hkey
      · obtain ⟨x, hx, rfl⟩ := List.mem_map.1 hr'
        exact List.ne_nil_of_mem (Model.mem_menders.2 ⟨hx, hattends⟩) hapart
    have hfirst := notify_other hlisten hothers h (hknown a List.mem_cons_self)
    have hnone : w.notifyRefusals d listen o a.1 a.2 = [] :=
      World.notifyRefusals_of_not_attends hothers
    obtain ⟨hrest, hnone'⟩ := ih (h.aside hfirst) (by rw [hfirst.menders, hapart])
      (fun b hb q hq => Nat.lt_of_lt_of_le (hknown b (List.mem_cons_of_mem a hb) q hq) hfirst.size)
      fun b hb => hother b (List.mem_cons_of_mem a hb)
    refine ⟨(Model.Aside.steady d k).trans hfirst hrest, ?_⟩
    rw [Mutation.refusals, hnone, hnone', List.append_nil]

/-- A change of the property is settled by its connection. -/
theorem settled_own (h : w.model.Attached d r p k V) (ht : op.Touches r p listen r w μ)
    (hown : ∃ v, (p, v) ∈ μ.announcements) : μ.Settled d r p k listen w := by
  obtain rfl := Operation.object_of_mutation? ht.change
  let b := w.model.setStore μ.object μ.store
  have hwhole : b.Whole := ht.whole h.whole
  have hsize : b.objects.size = w.model.objects.size := Model.size_modifyObject w.model μ.object _
  have hknown (a : String × Value) (ha : a ∈ μ.announcements) (q : ObjectId)
      (hq : a.2 = .object q) : q < b.objects.size :=
    Nat.lt_of_lt_of_eq (ht.known_told ha h.whole hq) hsize.symm
  have hhold : Model.Aside d k b (Operation.written w μ).model := Mirroring.aside_written d k w μ
  have hposted : (Operation.written w μ).model.Posted d μ.object p k :=
    (h.toPosted.setStore fun q hq => ht.known_stored h.whole hq).aside hhold
  have hapart : (Operation.written w μ).model.menders d μ.object = [] := by
    rw [Mirroring.menders_written, h.menders_self]
  -- What comes before the property is told of does not concern the deep watch.
  obtain ⟨_, hv⟩ := hown
  obtain ⟨pre, v, post, hsplit, hpre, hpost⟩ := Operation.split_announced ht.change hv
  have hbefore : ∀ a ∈ pre, a ∈ μ.announcements := fun a ha => by
    rw [hsplit]
    exact List.mem_append_left _ ha
  have hmem : (p, v) ∈ μ.announcements := by
    rw [hsplit]
    exact List.mem_append_right pre List.mem_cons_self
  obtain ⟨haside, hnone⟩ := announce_other hlisten pre hposted hapart
    (fun a ha q hq => Nat.lt_of_lt_of_le (hknown a (hbefore a ha) q hq) hhold.size)
    fun a ha _ => hpre a ha
  have honlooks := announce_onlooks hlisten μ.object pre (Operation.written w μ)
  unfold Mutation.Settled
  rw [hsplit, Mutation.refusals_append, hnone, List.nil_append, Mutation.refusals,
    Mutation.refusals_of_object?_eq_none hpost, List.append_nil, Mutation.announce_append]
  generalize Mutation.announce listen μ.object pre (Operation.written w μ) = u at *
  have haside' := (Model.Aside.steady d k).trans hhold haside
  have hroot : ∀ t ∈ u.model.tree? d, t.object < b.objects.size ∧ b.Within maxDepth t.object := by
    intro t htree
    have htree' : w.model.tree? d = some t := haside'.tree?.symm.trans htree
    have hexists := h.lt_size h.whole (h.eq_object htree')
    exact ⟨Nat.lt_of_lt_of_eq hexists hsize.symm, h.within_setStore htree' μ.store⟩
  obtain ⟨htold, hiff⟩ := notify_own (v := v) hlisten (hposted.aside haside) hwhole
    haside'.toExtends (fun q hq => hknown _ hmem q hq) (by rw [haside.menders, hapart]) hroot
  refine ⟨htold.within honlooks.grows (announce_onlooks hlisten μ.object post _).grows, ?_⟩
  rw [hiff]
  refine forall_congr' fun q => imp_congr_left ?_
  have hvalue : (b.get μ.object p).object? = v.object? := ht.object?_get hmem
  rw [← Value.object?_eq_some_iff, ← Value.object?_eq_some_iff, hvalue]

/-- A change inside the value of the property is settled by the nodes for its object. -/
theorem settled_inside (h : w.model.Attached d r p k V) (ht : op.Touches r p listen o w μ)
    (hinside : w.model.Inside r p o) : μ.Settled d r p k listen w := by
  obtain rfl := Operation.object_of_mutation? ht.change
  let b := w.model.setStore μ.object μ.store
  have hhold : Model.Aside d k b (Operation.written w μ).model := Mirroring.aside_written d k w μ
  have hposted : (Operation.written w μ).model.Posted d r p k :=
    (h.toPosted.setStore fun q hq => ht.known_stored h.whole hq).aside hhold
  have hne : w.model.menders d μ.object ≠ [] := h.menders_ne_nil_iff.2 hinside
  have hmenders : (Operation.written w μ).model.menders d μ.object = w.model.menders d μ.object :=
    Mirroring.menders_written d w μ μ.object
  have ho : μ.object ≠ r := fun heq => hne (heq ▸ h.menders_self)
  -- The value is the root of the tree, and the operation leaves it where it is.
  obtain ⟨q, hq, hreach⟩ := hinside
  obtain rfl : V = .object q := h.value.symm.trans hq
  obtain ⟨t, htree, rfl⟩ := Option.map_eq_some_iff.1 h.root
  have hmirrors := h.mirrors t htree
  have htree' : (Operation.written w μ).model.tree? d = some t := hhold.tree?.trans htree
  have hstore : ∀ q, q ≠ μ.object → b.store q = w.model.store q := fun q hq =>
    Model.store_setStore_of_ne hq
  have hget : b.get r p = .object t.object := (congrArg (·.get p) (hstore r ho.symm)).trans hq
  have hroot : (∀ q, b.get r p = .object q → b.Within maxDepth q) ↔ b.Within maxDepth t.object := by
    rw [hget]
    constructor
    · exact fun hall => hall _ rfl
    · rintro hfits q heq
      rw [← Value.object.inj heq]
      exact hfits
  -- Only what is told of first can be refused. It is what the change put into the object.
  obtain ⟨⟨key, v⟩, rest, hlist⟩ := List.exists_cons_of_ne_nil ht.tells
  have hmem : (key, v) ∈ μ.announcements := hlist ▸ List.mem_cons_self
  have hrest : ∀ a ∈ rest, a.2.object? = none := fun a ha =>
    (Operation.lengths_of_tail ht.change a (hlist ▸ ha)).2.1
  have hput (q : ObjectId) (hv : v = .object q) : b.Contains μ.object q := ht.contains_told hmem hv
  have hcontained (q : ObjectId) (hcontains : b.Contains μ.object q) :
      w.model.Contains μ.object q ∨ v = .object q := by
    refine (ht.contains_or_head hcontains).imp_right ?_
    rintro ⟨a, ha, heq⟩
    rw [hlist] at ha
    obtain rfl := Option.some.inj ha
    exact heq
  obtain ⟨htold, hiff⟩ := notify_inside hlisten
    (hposted.underway hhold.toExtends htree' (Model.keyed_of_mirrors hmirrors))
    (ht.marked h htree hmem) ho (hmenders ▸ hne)
    (ht.alive ⟨_, hq, hreach⟩ (key, v) (by rw [hlist]; rfl))
  have hnodup : t.watchers.Nodup := Model.watched_of_tree? htree ▸ h.nodup
  unfold Mutation.Settled
  rw [hlist, Mutation.refusals, Mutation.refusals_of_object?_eq_none hrest, List.append_nil, hiff,
    hposted.forall_roomy_iff htree', hroot,
    hmirrors.within_iff hnodup (h.within _ rfl) hstore hcontained hput]
  exact ⟨htold.within List.suffix_rfl (announce_onlooks hlisten μ.object rest _).grows, Iff.rfl⟩

/-- An operation that writes the property, or something inside its value, tells the function of the
deep watch, and the deep watch refuses nothing in it exactly if the value of the property is not too
deep after it. -/
theorem run_touching (h : w.model.Attached d r p k V) (ht : op.Touches r p listen o w μ) :
    World.Told k w (op.run listen o w) ∧ (op.refusals d listen o w = [] ↔
      (op.run listen o w).model.Shallow maxDepth ((op.run listen o w).model.get r p)) := by
  obtain rfl := Operation.object_of_mutation? ht.change
  let b := w.model.setStore μ.object μ.store
  have hrun : op.run listen μ.object w = (Mutation.announce listen μ.object μ.announcements
      (Operation.written w μ)).mapModel (·.releaseAll μ.holds) := by
    rw [Operation.run_eq, ht.change]
    rfl
  have hrefusals : op.refusals d listen μ.object w =
      Mutation.refusals d listen μ.object μ.announcements (Operation.written w μ) := by
    unfold Operation.refusals
    rw [ht.change]
    rfl
  have hsettled : μ.Settled d r p k listen w := by
    rcases ht.concerns with ⟨heq, hown⟩ | hinside
    · subst heq
      exact settled_own hlisten h ht hown
    · exact settled_inside hlisten h ht hinside
  -- Nothing is written while it is told of, so that the value is the one after the change.
  have hextends : b.Extends (op.run listen μ.object w).model := by
    have hI := Model.Extends.steady
    have hhold : Model.Aside d k b (Operation.written w μ).model := Mirroring.aside_written d k w μ
    have honlooks :=
      announce_onlooks hlisten μ.object μ.announcements (Operation.written w μ)
    rw [hrun]
    exact hI.trans (hI.trans hhold.toExtends honlooks.content)
      (Model.aside_releaseAll d k _ μ.holds).toExtends
  have hr : r < b.objects.size :=
    Nat.lt_of_lt_of_eq h.toPosted.lt_size (Model.size_modifyObject w.model μ.object _).symm
  constructor
  · rw [hrun]
    exact hsettled.1
  · rw [hrefusals, hsettled.2, hextends.shallow_iff (ht.whole h.whole) hr]

end Listening

end Spectating

end LiveScope
