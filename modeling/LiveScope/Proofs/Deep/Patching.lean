import LiveScope.Proofs.Deep.Members
import LiveScope.Proofs.Deep.Rebuilding
import LiveScope.Proofs.Deep.Tending

/-!
# A tree between a change and its mending

After a change of an object the nodes for that object are behind, until the watcher of each has had
its turn; all others mirror. `Model.Lagging` says so of a tended deep watch, with the numbers of the
watchers whose turn is still to come. A turn takes one number off the list
(`Model.Lagging.mend`), whatever others do in between (`Model.Lagging.aside`), and when none is left
the tree mirrors again (`Model.Lagging.mirrors`). Each way to mend a node puts below it what is in
its object now (`Model.Patches`). None of this fails, for everything inside the property's value
fits.
-/

namespace LiveScope

namespace WatchTree

variable {children : List (String × WatchTree)} {key : String}

/-- To take out keys below a node takes out their labels. -/
theorem labels_filter (keep : String → Bool) (children : List (String × WatchTree)) :
    labels (children.filter fun e => keep e.1) = (labels children).filter fun e => keep e.1 := by
  unfold labels
  rw [List.filter_map]
  rfl

/-- To put a tree below a node puts its label there. -/
theorem labels_insertEntry (key : String) (t : WatchTree) (children : List (String × WatchTree)) :
    labels (Dict.insertEntry key t children) = Dict.insertEntry key t.object (labels children) :=
  Dict.map_insertEntry WatchTree.object key t children

/-- The label at a key is that of the tree there. -/
theorem lookup_labels (key : String) (children : List (String × WatchTree)) :
    (labels children).lookup key = (children.lookup key).map (·.object) := by
  induction children with
  | nil => rfl
  | cons e children ih =>
    obtain ⟨k, t⟩ := e
    show List.lookup key ((k, t.object) :: labels children) = _
    rw [Dict.lookup_cons_ite, Dict.lookup_cons_ite, ih]
    split <;> rfl

end WatchTree

namespace Model

variable {m m' : Model} {d : DeepId} {r o q : ObjectId} {p key : String} {k : CallbackId}
  {v : Value} {before : List (String × ObjectId)} {pending : List Nat} {n : Nat}

/-- A tended deep watch after a change of `key` to `v` in the object `o`, which had the objects
`before` in it. The nodes for `o` with a `pending` watcher are as before the change. -/
structure Lagging (m : Model) (d : DeepId) (r : ObjectId) (p : String) (k : CallbackId)
    (o : ObjectId) (key : String) (v : Value) (before : List (String × ObjectId))
    (pending : List Nat) : Prop where
  /-- The deep watch is tended. -/
  tended : m.Tended d r p k
  /-- The object exists. -/
  exist : o < m.objects.size
  /-- What was written exists. -/
  known : ∀ q, v = .object q → q < m.objects.size
  /-- What was in the object has ascending keys. -/
  ascending : Ascending before
  /-- The change makes of it what is in the object now. -/
  amends : (m.store o).amend key v before = m.members o
  /-- The tree is not too deep for what is in its objects. -/
  fits : ∀ t ∈ m.tree? d, t.Fits m maxDepth
  /-- Below each node is what is in its object, except where a watcher is pending. -/
  nodes : ∀ t ∈ m.tree? d, t.Every fun q n labels =>
    labels = if q = o ∧ n ∈ pending then before else m.members q
  /-- No watcher is pending twice. -/
  distinct : pending.Nodup
  /-- The pending watchers have numbers that were given out. -/
  numbered : ∀ n ∈ pending, n ≤ m.lastIdOf o

/-- What is in an object depends on its content alone. -/
theorem members_congr (h : m'.store o = m.store o) : m'.members o = m.members o := by
  unfold members objectMembers
  rw [h]

/-- To take one number off a list of numbers concerns the node with this number alone. -/
theorem pending_iff {n' : Nat} (hne : (q, n') ≠ (o, n)) :
    q = o ∧ n' ∈ n :: pending ↔ q = o ∧ n' ∈ pending := by
  rw [List.mem_cons]
  refine and_congr_right fun hq => or_iff_right fun hn => hne ?_
  rw [hq, hn]

/-- What is built for an object that is not too deep. -/
theorem Within.attaches {m₁ : Model} {levels : Nat} (h : m.Within levels q) (hwhole : m.Whole)
    (hq : q < m.objects.size) (hr : m.Rewatches m₁) :
    ∃ t m₂, attach d levels q (m₁.ensureBinding q) = (.ok t, m₂) := by
  have hensure := Rewatches.steady.trans hr (rewatches_ensureBinding m₁ q)
  have hbound : (m₁.ensureBinding q).isBound q = true := by
    refine isBound_ensureBinding_self ?_
    rw [hr.size]
    exact hq
  obtain ⟨t, m₂, hattach, _⟩ := attach_of_within d (hwhole.rewatches hensure) hbound
    (h.of_grown hwhole (fun p _ => hensure.store p) hq)
  exact ⟨t, m₂, hattach⟩

/-- To move a tended deep watch to a value that is not too deep succeeds. -/
theorem Within.retargets (hwhole : m.Whole)
    (hv : ∀ q, v = .object q → q < m.objects.size ∧ m.Within maxDepth q) :
    ∃ m', retarget d v m = (.ok (), m') := by
  cases hret : retarget d v m with
  | mk res m' =>
    cases moved_of_retarget hret with
    | stays | dropped | built => exact ⟨_, rfl⟩
    | @refused q fault m₁ hvalue hattach =>
      obtain ⟨hq, hwithin⟩ := hv q hvalue
      obtain ⟨t, m₂, hbuilt⟩ := hwithin.attaches (d := d) hwhole hq (rewatches_dropTree m d)
      rw [hbuilt] at hattach
      cases hattach

/-- A tended deep watch that is moved to the value of its property mirrors it. -/
theorem Tended.retarget (h : m.Tended d r p k)
    (hv : ∀ q, v = .object q → q < m.objects.size ∧ m.Within maxDepth q)
    (hmirrors : ∀ t ∈ m.tree? d, t.Mirrors m) :
    ∃ m', Model.retarget d v m = (.ok (), m') ∧ m'.Tended d r p k ∧
      (∀ t ∈ m'.tree? d, t.Mirrors m') ∧ m'.watchedRoot d = v.object? := by
  obtain ⟨m', hret⟩ := Within.retargets (d := d) h.whole hv
  obtain ⟨tree, hdeep⟩ := h.deep
  have hsome : (m.deep? d).isSome = true := Option.isSome_of_eq_some hdeep
  have hexist : ∀ q, v = .object q → q < m.objects.size := fun q hq => (hv q hq).1
  have hrewatches : m.Rewatches m' := (rewatches_retarget d v).of_run hret
  refine ⟨m', hret, ?_, fun t ht => ?_, watchedRoot_retarget hsome hret⟩
  · rcases regrown_retarget h.whole hsome hexist hret with rfl | ⟨gone, added, hregrown⟩
    · exact h
    · exact h.regrown hregrown
  · refine mirrors_congr hrewatches.store ?_
    rcases retarget_of_ok h.whole hsome hexist hret with ⟨rfl, _⟩ |
      ⟨_, ⟨_, hnone, _⟩ | ⟨t', ht', _, hmirrors', _⟩⟩
    · exact hmirrors t ht
    · rw [hnone] at ht
      cases ht
    · rw [ht'] at ht
      obtain rfl := Option.some.inj ht
      exact hmirrors'

/-- Whether a change of what is below a node puts there what is in an object, in trees that were
there or in new ones, where `before` was in the object. -/
structure Patches (m : Model) (o : ObjectId) (before : List (String × ObjectId))
    (f : List (String × WatchTree) → List (String × WatchTree)) : Prop where
  /-- What was in the object becomes what is in it. -/
  labels : ∀ children, WatchTree.labels children = before →
    WatchTree.labels (f children) = m.members o
  /-- What is put there was there, or mirrors an object in the object and is watched by numbers that
  are new. -/
  below : ∀ children, ∀ e ∈ f children, e ∈ children ∨ e.2.Mirrors m ∧
    (e.1, e.2.object) ∈ m.members o ∧ ∀ x ∈ e.2.watchers, m.lastIdOf x.1 < x.2

/-- Cutting off what is past the end of a list. -/
theorem patches_shortened (hamends : (m.store o).amend key v before = m.members o)
    (hlength : key = Store.lengthKey ∧ (m.store o).isList) :
    m.Patches o before fun children => (pastEnd (m.store o).size children).2 where
  labels children hchildren := by
    have hpast : (pastEnd (m.store o).size children).2 = children.filter fun e =>
        !(Store.index? e.1).any ((m.store o).size ≤ ·) := by
      unfold pastEnd
      rw [List.partition_eq_filter_filter]
      rfl
    unfold Store.amend at hamends
    rw [if_pos hlength] at hamends
    rw [hpast, WatchTree.labels_filter fun key => !(Store.index? key).any ((m.store o).size ≤ ·),
      hchildren, hamends]
  below _ _ he := .inl (mem_of_mem_pastEnd (.inr he))

/-- Taking away what is at a key where there is no object any more. -/
theorem patches_removed (hamends : (m.store o).amend key v before = m.members o)
    (hlength : ¬ (key = Store.lengthKey ∧ (m.store o).isList)) (hvalue : v.object? = none) :
    m.Patches o before (·.filter (·.1 != key)) where
  labels children hchildren := by
    unfold Store.amend at hamends
    rw [if_neg hlength, hvalue] at hamends
    rw [WatchTree.labels_filter (· != key), hchildren]
    exact hamends
  below _ _ he := .inl (List.mem_filter.1 he).1

/-- What is in an object at a key after a change of that key. -/
theorem mem_members_of_amends {child : ObjectId}
    (hamends : (m.store o).amend key (.object child) before = m.members o)
    (hlength : ¬ (key = Store.lengthKey ∧ (m.store o).isList)) : (key, child) ∈ m.members o := by
  unfold Store.amend at hamends
  rw [if_neg hlength] at hamends
  rw [← hamends]
  refine Dict.mem_of_lookup ?_
  show (Dict.insertEntry key child _).lookup key = some child
  rw [Dict.lookup_insertEntry, if_pos rfl]

/-- Putting at a key the tree of the object that is there now. -/
theorem patches_replaced {t : WatchTree}
    (hamends : (m.store o).amend key (.object t.object) before = m.members o)
    (hlength : ¬ (key = Store.lengthKey ∧ (m.store o).isList)) (hmirrors : t.Mirrors m)
    (hfresh : ∀ x ∈ t.watchers, m.lastIdOf x.1 < x.2) :
    m.Patches o before fun children => Dict.insertEntry key t (children.filter (·.1 != key)) where
  labels children hchildren := by
    unfold Store.amend at hamends
    rw [if_neg hlength] at hamends
    rw [WatchTree.labels_insertEntry, WatchTree.labels_filter (· != key), hchildren]
    exact hamends
  below children e he := by
    rcases Dict.mem_insertEntry he with rfl | he
    · exact .inr ⟨hmirrors, mem_members_of_amends hamends hlength, hfresh⟩
    · exact .inl (List.mem_filter.1 he).1

namespace Lagging

/-- What others do does not change which nodes are behind. -/
theorem aside (h : m.Lagging d r p k o key v before pending) (ha : Aside d k m m') :
    m'.Lagging d r p k o key v before pending where
  tended := h.tended.aside ha
  exist := Nat.lt_of_lt_of_le h.exist ha.size
  known q hq := Nat.lt_of_lt_of_le (h.known q hq) ha.size
  ascending := h.ascending
  amends := by
    rw [ha.store o h.exist, h.amends, members_congr (ha.store o h.exist)]
  fits t ht := by
    rw [ha.tree?] at ht
    refine (h.fits t ht).of_grown h.tended.whole ha.store fun x hx => ?_
    exact h.tended.toNoded.lt_size (watched_of_tree? ht ▸ hx)
  nodes t ht := by
    rw [ha.tree?] at ht
    refine (h.nodes t ht).imp fun q n labels hmem heq => ?_
    have hq : q < m.objects.size := h.tended.toNoded.lt_size (watched_of_tree? ht ▸ hmem)
    rw [heq, members_congr (ha.store q hq)]
  distinct := h.distinct
  numbered n hn := Nat.le_trans (h.numbered n hn) (ha.lastIdOf o)

/-- When no watcher is pending any more the tree mirrors. -/
theorem mirrors (h : m.Lagging d r p k o key v before []) : ∀ t ∈ m.tree? d, t.Mirrors m := by
  intro t ht
  refine (h.nodes t ht).imp fun q n labels _ heq => ?_
  rw [heq, if_neg fun hq => List.not_mem_nil hq.2]

/-- A watcher that belongs to no node is not waited for. -/
theorem skip (h : m.Lagging d r p k o key v before (n :: pending)) (hn : (o, n) ∉ m.watched d) :
    m.Lagging d r p k o key v before pending :=
  { h with
    nodes := fun t ht => by
      refine (h.nodes t ht).imp fun q n' labels hmem heq => ?_
      have hne : (q, n') ≠ (o, n) := fun heq => hn (heq ▸ watched_of_tree? ht ▸ hmem)
      exact heq.trans (if_congr (pending_iff hne) rfl rfl)
    distinct := (List.nodup_cons.1 h.distinct).2
    numbered := fun n' hn' => h.numbered n' (List.mem_cons_of_mem n hn') }

/-- A node is brought up to date by a change of what is below it that puts there what is in the
object, in trees that were there or in new ones. -/
theorem patch (h : m.Lagging d r p k o key v before (n :: pending)) {t : WatchTree}
    {f : List (String × WatchTree) → List (String × WatchTree)} (ht : m.tree? d = some t)
    (htended : m'.Tended d r p k) (hr : m.Rewatches m')
    (ht' : m'.tree? d = some (t.modify o n f)) (hf : m.Patches o before f) :
    m'.Lagging d r p k o key v before pending := by
  have hmembers (q : ObjectId) : m'.members q = m.members q := members_congr (hr.store q)
  obtain ⟨hn, hdistinct⟩ := List.nodup_cons.1 h.distinct
  have hnodup : t.watchers.Nodup := watched_of_tree? ht ▸ h.tended.nodup
  -- What was behind or up to date at another node is so still.
  have hother : ∀ q n' labels, (q, n') ≠ (o, n) →
      (labels = if q = o ∧ n' ∈ n :: pending then before else m.members q) →
      labels = if q = o ∧ n' ∈ pending then before else m'.members q := by
    intro q n' labels hne heq
    rw [hmembers]
    exact heq.trans (if_congr (pending_iff hne) rfl rfl)
  constructor
  case tended => exact htended
  case exist =>
    rw [hr.size]
    exact h.exist
  case known =>
    intro q hq
    rw [hr.size]
    exact h.known q hq
  case ascending => exact h.ascending
  case amends => rw [hr.store, h.amends, hmembers]
  case distinct => exact hdistinct
  case numbered =>
    intro n' hn'
    exact Nat.le_trans (h.numbered n' (List.mem_cons_of_mem n hn')) (hr.lastIdOf o)
  case fits =>
    intro t'' ht''
    rw [ht'] at ht''
    obtain rfl := Option.some.inj ht''
    have hfits : (t.modify o n f).Fits m maxDepth := by
      refine (h.fits t ht).modify fun left children hnode e he => ?_
      have hroot := hnode.root_spec
      rcases hf.below children e he with he | ⟨hmirrors, hmem, _⟩
      · cases hnode with
        | node _ below => exact below e he
      · have hwithin : m.Within left e.2.object := hroot.of_mem hmem
        exact hmirrors.fits (o := o) (fun _ _ => rfl) hwithin hwithin
    refine hfits.of_grown h.tended.whole (fun q _ => hr.store q) fun x hx => ?_
    exact Nat.lt_of_lt_of_eq (htended.toNoded.lt_size (watched_of_tree? ht' ▸ hx)) hr.size
  case nodes =>
    intro t'' ht''
    rw [ht'] at ht''
    obtain rfl := Option.some.inj ht''
    refine (h.nodes t ht).modify hnodup hother fun children hevery hnodup' => ?_
    have hroot : WatchTree.labels children = before := by
      exact hevery.root_spec.trans (if_pos ⟨rfl, List.mem_cons_self⟩)
    refine ⟨?_, fun e he => ?_⟩
    · rw [hf.labels children hroot, if_neg fun hmem => hn hmem.2, hmembers]
    · rcases hf.below children e he with he | ⟨hmirrors, _, hfresh⟩
      · refine (hevery.below_spec e he).imp fun q n' labels hmem heq => ?_
        refine hother q n' labels (fun heq => ?_) heq
        exact (WatchTree.nodup_below hnodup' e he).2 (heq ▸ hmem)
      · -- The watchers of a new tree were not there when the change was announced.
        refine hmirrors.imp fun q n' labels hmem heq => ?_
        have hnew : ¬ (q = o ∧ n' ∈ pending) := by
          rintro ⟨rfl, hn'⟩
          exact Nat.not_lt.2 (h.numbered n' (List.mem_cons_of_mem n hn')) (hfresh _ hmem)
        rw [if_neg hnew, heq, hmembers]

/-- Where there is nothing to bring up to date no node is behind. -/
theorem settled (h : m.Lagging d r p k o key v before pending) (hbefore : before = m.members o)
    {pending' : List Nat} (hsub : pending'.Sublist pending) :
    m.Lagging d r p k o key v before pending' :=
  { h with
    nodes := fun t ht => by
      refine (h.nodes t ht).imp fun q n labels _ heq => ?_
      have hq (ns : List Nat) : (if q = o ∧ n ∈ ns then before else m.members q) = m.members q := by
        split
        · rename_i hq
          rw [hq.1, hbefore]
        · rfl
      rw [heq, hq, hq]
    distinct := h.distinct.sublist hsub
    numbered := fun n hn => h.numbered n (hsub.subset hn) }

/-- Below a node with a pending watcher is what was in its object before. -/
theorem labels_of_found (h : m.Lagging d r p k o key v before (n :: pending)) {t node : WatchTree}
    {depth : Nat} (ht : m.tree? d = some t) (hfind : t.find? o n 1 = some (depth, node)) :
    WatchTree.labels node.children = before := by
  obtain ⟨_, hobject, hwatcher⟩ := WatchTree.find?_spec hfind
  have hroot := ((h.nodes t ht).find? hfind).root_spec
  rw [hobject, hwatcher] at hroot
  exact hroot.trans (if_pos ⟨rfl, List.mem_cons_self⟩)

/-- What is in the object of a node now is not too deep for its place. -/
theorem within_of_found (h : m.Lagging d r p k o key v before pending) {t node : WatchTree}
    {depth : Nat} (ht : m.tree? d = some t) (hfind : t.find? o n 1 = some (depth, node))
    {child : ObjectId} (hmem : (key, child) ∈ m.members o) : m.Within (maxDepth - depth) child := by
  obtain ⟨_, hobject, _⟩ := WatchTree.find?_spec hfind
  obtain ⟨left, hleft, hfits⟩ := (h.fits t ht).find? hfind
  have hroot := hfits.root_spec
  rw [hobject] at hroot
  cases left with
  | zero => exact hroot.elim
  | succ left =>
    have hdepth : maxDepth - depth = left := by omega
    rw [hdepth]
    exact hroot.of_mem hmem

/-- A node with a pending watcher is patched, unless it is not there any more or there is nothing to
bring up to date. -/
theorem mend_node (h : m.Lagging d r p k o key v before (n :: pending))
    (halive : m.isDeepAlive d = true) :
    ∃ m', Model.mend d o n key v m = (.ok (), m') ∧ ((o, n) ∉ m.watched d ∧ m' = m ∨
      before = m.members o ∧ m' = m ∨ ∃ t f, m.tree? d = some t ∧
        m'.tree? d = some (t.modify o n f) ∧ m.Patches o before f) := by
  cases hmend : Model.mend d o n key v m with
  | mk res m' =>
    cases mended_of_mend hmend with
    | absent hnone =>
      refine ⟨m, rfl, .inl ⟨fun hn => ?_, rfl⟩⟩
      unfold watched at hn
      cases ht : m.tree? d with
      | none =>
        rw [ht] at hn
        cases hn
      | some t =>
        rw [ht] at hn
        obtain ⟨depth, node, hfind⟩ := WatchTree.exists_find? hn 1
        have hfound := hnone halive
        rw [ht, Option.bind_some, hfind] at hfound
        cases hfound
    | unchanged ht hfind hlength hsame =>
      refine ⟨m, rfl, .inr (.inl ⟨?_, rfl⟩)⟩
      have hlookup : before.lookup key = v.object? := by
        rw [← h.labels_of_found ht hfind, WatchTree.lookup_labels]
        exact hsame
      rw [← h.amends]
      exact ((m.store o).amend_eq_self h.ascending hlength hlookup).symm
    | shortened ht hfind hlength =>
      exact ⟨_, rfl, .inr (.inr ⟨_, _, ht, (tree?_cut ht o n _ _ d).trans (if_pos rfl),
        patches_shortened h.amends hlength⟩)⟩
    | removed ht hfind hlength hvalue =>
      exact ⟨_, rfl, .inr (.inr ⟨_, _, ht, (tree?_cut ht o n _ _ d).trans (if_pos rfl),
        patches_removed h.amends hlength hvalue⟩)⟩
    | @refused t node depth child fault m₁ ht hfind hlength hvalue hattach =>
      -- A new object fits in what is left of the levels.
      subst hvalue
      have hwithin := h.within_of_found ht hfind (mem_members_of_amends h.amends hlength)
      obtain ⟨tree, m₂, hbuilt⟩ := hwithin.attaches (d := d) h.tended.whole (h.known child rfl)
        (swapped_cut m d t o n _ _).rewatches
      rw [hbuilt] at hattach
      cases hattach
    | @replaced t node new depth child m₁ ht hfind hlength hvalue hattach =>
      subst hvalue
      obtain ⟨hswapped, hdeeps, rfl, hmirrors⟩ := (swapped_cut m d t o n _ _).attach_of_ok
        h.tended.whole (h.known child rfl) hattach
      exact ⟨_, rfl, .inr (.inr ⟨t, _, ht, (tree?_replaced ht hdeeps new d).trans (if_pos rfl),
        patches_replaced h.amends hlength hmirrors fun x hx => (hswapped.fresh x hx).1⟩)⟩

/-- The turn of a watcher that mends the deep watch: it is taken off those that are waited for. -/
theorem mend (h : m.Lagging d r p k o key v before (n :: pending))
    (halive : m.isDeepAlive d = true) :
    ∃ m', Model.mend d o n key v m = (.ok (), m') ∧
      m'.Lagging d r p k o key v before pending := by
  obtain ⟨m', hmend, hcases⟩ := h.mend_node halive
  refine ⟨m', hmend, ?_⟩
  rcases hcases with ⟨hn, rfl⟩ | ⟨hbefore, rfl⟩ | ⟨t, f, ht, ht', hf⟩
  · exact h.skip hn
  · exact h.settled hbefore (List.sublist_cons_self n pending)
  · have hkeyed : ∀ t, m.tree? d = some t → t.watchers.Nodup ∧ t.Keyed := by
      intro t ht
      refine ⟨watched_of_tree? ht ▸ h.tended.nodup, (h.nodes t ht).imp fun q n labels _ heq => ?_⟩
      have hasc : Ascending labels := by
        rw [heq]
        split
        · exact h.ascending
        · exact m.ascending_members q
      exact hasc.nodup_keys
    refine h.patch ht ?_ ((rewatches_mend d o n key v).of_run hmend) ht' hf
    rcases regrown_mend h.tended.whole h.known hkeyed hmend with rfl | ⟨_, _, _, hregrown⟩
    · exact h.tended
    · exact h.tended.regrown hregrown

end Lagging

end Model

end LiveScope
