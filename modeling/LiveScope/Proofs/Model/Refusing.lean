import LiveScope.Proofs.Model.Mending
import LiveScope.Proofs.Model.Subscribing
import LiveScope.Proofs.World.Binding
import LiveScope.Proofs.World.Reentrance

/-!
# What a refused deep watch leaves behind

An object that lies too deep ends the building of a tree where it is met, and nothing that was
watched before is taken back. Which objects those are does not depend on what is bound to them, only
on what is in them: `Model.visits` is the order in which building gets done with objects.
`Model.refused_leaves` is the result for all three occasions: a deep watch that is set up, one that
is moved to a new value, and one that is mended. The watchers that stay belong to no tree, so that
nothing takes them down, but each goes on telling of the property.
-/

namespace LiveScope

namespace Model

variable {m m' : Model} {id : DeepId}

/-! ## The order of building -/

/-- The objects that `visit` passes from one object after the other, up to the first from which it
does not get to the end, and whether there is none such. -/
def visitAll (visit : ObjectId → List ObjectId × Bool) : List ObjectId → List ObjectId × Bool
  | [] => ([], true)
  | o :: os =>
    match visit o with
    | (passed, false) => (passed, false)
    | (passed, true) =>
      let (rest, done) := visitAll visit os
      (passed ++ rest, done)

/-- The objects that building the tree of an object gets done with, in this order, and whether it
gets done with the whole tree. -/
def visits (m : Model) : (levels : Nat) → ObjectId → List ObjectId × Bool
  | 0, _ => ([], false)
  | levels + 1, o =>
    match visitAll (m.visits levels) ((m.objectMembers o).map (·.2)) with
    | (passed, false) => (passed, false)
    | (passed, true) => (passed ++ [o], true)

/-- What building gets done with depends on the contents alone. -/
theorem visits_congr (h : ∀ o, m'.store o = m.store o) (levels : Nat) :
    m'.visits levels = m.visits levels := by
  induction levels with
  | zero => rfl
  | succ levels ih =>
    funext o
    unfold visits objectMembers
    rw [ih, h]

/-! ## What building adds, also where it fails -/

/-- The trees of several objects add a watcher for each object that building gets done with. -/
theorem attachMembers_visits {levels : Nat}
    (ih : ∀ {m m' : Model} {o : ObjectId} {r : Except Fault WatchTree}, m.Whole →
      m.isBound o = true → attach id levels o m = (r, m') →
      ∃ pairs, Grown id pairs m m' ∧ m.visits levels o = (pairs.map (·.1), r.isOk))
    {xs : List (String × ObjectId)} {r : Except Fault (List (String × WatchTree))}
    (hwhole : m.Whole) (hexist : ∀ x ∈ xs, x.2 < m.objects.size)
    (h : xs.mapM (attachMember id levels) m = (r, m')) :
    ∃ pairs, Grown id pairs m m' ∧
      visitAll (m.visits levels) (xs.map (·.2)) = (pairs.map (·.1), r.isOk) := by
  induction xs generalizing m m' r with
  | nil =>
    obtain ⟨rfl, rfl⟩ := Prod.mk.inj h
    exact ⟨[], .refl id m, rfl⟩
  | cons x xs ihxs =>
    obtain ⟨key, o⟩ := x
    have hensure := grown_ensureBinding id m o
    have hbound := isBound_ensureBinding_self (hexist (key, o) List.mem_cons_self)
    have hvisits := visits_congr (store_ensureBinding m o) levels
    rw [List.mapM_cons] at h
    cases hx : attach id levels o (m.ensureBinding o) with
    | mk r₁ m₁ =>
      -- The first object is visited in a model that has a binding for it, and the same content.
      obtain ⟨pairs, hgrown, hpassed⟩ := ih (hwhole.rewatches hensure.rewatches) hbound hx
      have hfirst : Grown id pairs m m₁ := hensure.trans hgrown
      rw [hvisits] at hpassed
      rw [List.map_cons, visitAll, hpassed]
      cases r₁ with
      | error fault =>
        have hmember : attachMember id levels (key, o) m = (.error fault, m₁) := by
          rw [attachMember_eq]
          exact Edit.bind_of_error hx
        rw [Edit.bind_of_error hmember] at h
        obtain ⟨rfl, rfl⟩ := Prod.mk.inj h
        exact ⟨pairs, hfirst, rfl⟩
      | ok t =>
        have hmember : attachMember id levels (key, o) m = (.ok (key, t), m₁) := by
          rw [attachMember_eq]
          exact Edit.bind_of_ok hx
        rw [Edit.bind_of_ok hmember] at h
        -- The others are built in the model that the first left, and their result is that of all.
        cases hrest : xs.mapM (attachMember id levels) m₁ with
        | mk r₂ m₂ =>
          obtain ⟨pairs', hgrown', hpassed'⟩ := ihxs (hwhole.rewatches hfirst.rewatches)
            (fun x hx => by
              rw [hfirst.rewatches.size]
              exact hexist x (List.mem_cons_of_mem _ hx)) hrest
          rw [visits_congr hfirst.rewatches.store] at hpassed'
          have hend : m' = m₂ ∧ r.isOk = r₂.isOk := by
            cases r₂ with
            | error fault =>
              rw [Edit.bind_of_error hrest] at h
              obtain ⟨rfl, rfl⟩ := Prod.mk.inj h
              exact ⟨rfl, rfl⟩
            | ok children =>
              rw [Edit.bind_of_ok hrest] at h
              obtain ⟨rfl, rfl⟩ := Prod.mk.inj h
              exact ⟨rfl, rfl⟩
          obtain ⟨rfl, hr⟩ := hend
          refine ⟨pairs ++ pairs', hfirst.trans hgrown', ?_⟩
          rw [hr, List.map_append]
          show (_, (visitAll _ _).2) = _
          rw [hpassed']

/-- Building a tree adds a watcher for each object that it gets done with, and no other, whether it
succeeds or not. -/
theorem attach_visits {levels : Nat} {o : ObjectId} {r : Except Fault WatchTree} (hwhole : m.Whole)
    (hbound : m.isBound o = true) (h : attach id levels o m = (r, m')) :
    ∃ pairs, Grown id pairs m m' ∧ m.visits levels o = (pairs.map (·.1), r.isOk) := by
  induction levels generalizing m m' o r with
  | zero =>
    obtain ⟨rfl, rfl⟩ := Prod.mk.inj h
    exact ⟨[], .refl id m, rfl⟩
  | succ levels ih =>
    rw [attach_succ, Edit.bind_of_ok (e := get) rfl] at h
    cases hmembers : (m.objectMembers o).mapM (attachMember id levels) m with
    | mk r₁ m₁ =>
      obtain ⟨pairs, hgrown, hpassed⟩ := attachMembers_visits ih hwhole
        (fun x hx => hwhole o x.2 (mem_values_of_mem_objectMembers hx)) hmembers
      unfold visits
      rw [hpassed]
      cases r₁ with
      | error fault =>
        rw [Edit.bind_of_error hmembers] at h
        obtain ⟨rfl, rfl⟩ := Prod.mk.inj h
        exact ⟨pairs, hgrown, rfl⟩
      | ok children =>
        rw [Edit.bind_of_ok hmembers, Edit.bind_of_ok (e := modifyGet _) rfl] at h
        obtain ⟨rfl, rfl⟩ := Prod.mk.inj h
        have hwatch : Grown id [(o, m₁.nextId o)] m₁ (m₁.watch o (.mend id)).2 :=
          grown_watch (hgrown.rewatches.isBound o hbound)
        exact ⟨_, hgrown.trans hwatch, by rw [List.map_append]; rfl⟩

/-! ## What is left -/

/-- `m'` has the same contents, handlers and registrations as `m`, and the same watchers but for one
more of the deep watch `id` on an object for each time that it is in `os`. -/
structure Leaves (id : DeepId) (os : List ObjectId) (m m' : Model) : Prop where
  /-- All content is the same. -/
  store : ∀ p, m'.store p = m.store p
  /-- The same handlers are connected. -/
  connectionsOf : ∀ p, m'.connectionsOf p = m.connectionsOf p
  /-- The same subscriptions are registered. -/
  registrationsOf : ∀ p, m'.registrationsOf p = m.registrationsOf p
  /-- The watchers that stay stand behind the old ones, as many as the object occurs. -/
  watchersOf : ∀ p, ∃ left, m'.watchersOf p = m.watchersOf p ++ left ∧
    left.length = os.count p ∧ ∀ x ∈ left, x.watch = .mend id

/-- What was added is left, one watcher for each node. -/
theorem Grown.leaves {pairs : List (ObjectId × Nat)} (h : Grown id pairs m m') :
    Leaves id (pairs.map (·.1)) m m' where
  store := h.rewatches.store
  connectionsOf := h.rewatches.connectionsOf
  registrationsOf := h.rewatches.registrationsOf
  watchersOf p := by
    obtain ⟨left, hleft, hasc, hmem⟩ := h.watchersOf p
    refine ⟨left, hleft, ?_, fun x hx => ((hmem x).1 hx).1⟩
    -- The watchers on `p` are numbered, and their numbers are those that `pairs` has for `p`.
    have hperm : (left.map fun x => (p, x.seq)).Perm (pairs.filter (·.1 == p)) := by
      refine (List.perm_ext_iff_of_nodup ?_ (h.nodup.filter _)).2 fun y => ?_
      · refine List.pairwise_map.2 (hasc.imp fun hlt heq => ?_)
        exact Nat.ne_of_lt hlt (Prod.mk.inj heq).2
      · obtain ⟨q, seq⟩ := y
        rw [List.mem_map, List.mem_filter, beq_iff_eq]
        constructor
        · rintro ⟨x, hx, heq⟩
          obtain ⟨rfl, rfl⟩ := Prod.mk.inj heq
          exact ⟨((hmem x).1 hx).2, rfl⟩
        · rintro ⟨hy, rfl⟩
          exact ⟨⟨seq, .mend id⟩, (hmem _).2 ⟨rfl, hy⟩, rfl⟩
    calc left.length = (left.map fun x => (p, x.seq)).length := (List.length_map _).symm
      _ = (pairs.filter (·.1 == p)).length := hperm.length_eq
      _ = (pairs.map (·.1)).count p := by
        rw [List.count_eq_countP, List.countP_map, List.countP_eq_length_filter]
        rfl

/-- Changes before which the tables were the same leave the same. -/
theorem Leaves.of_same {os : List ObjectId} {m₁ : Model} (h : Leaves id os m₁ m')
    (hstore : ∀ p, m₁.store p = m.store p)
    (hconnections : ∀ p, m₁.connectionsOf p = m.connectionsOf p)
    (hregistrations : ∀ p, m₁.registrationsOf p = m.registrationsOf p)
    (hwatchers : ∀ p, m₁.watchersOf p = m.watchersOf p) : Leaves id os m m' where
  store p := (h.store p).trans (hstore p)
  connectionsOf p := (h.connectionsOf p).trans (hconnections p)
  registrationsOf p := (h.registrationsOf p).trans (hregistrations p)
  watchersOf p := by
    rw [← hwatchers p]
    exact h.watchersOf p

/-- A refused attempt to watch an object leaves the watchers of what it got done with. -/
theorem attach_refused {levels : Nat} {q : ObjectId} {fault : Fault} (hwhole : m.Whole)
    (hq : q < m.objects.size)
    (h : attach id levels q (m.ensureBinding q) = (.error fault, m')) :
    m'.deeps = m.deeps ∧ Leaves id (m.visits levels q).1 m m' := by
  have hensure := grown_ensureBinding id m q
  obtain ⟨pairs, hgrown, hpassed⟩ := attach_visits (hwhole.rewatches hensure.rewatches)
    (isBound_ensureBinding_self hq) h
  rw [visits_congr (store_ensureBinding m q)] at hpassed
  rw [hpassed]
  exact ⟨hgrown.deeps, (hensure.trans hgrown).leaves⟩

/-- A deep watch that is refused a new value has no tree any more, and the watchers are left of what
it got done with. -/
theorem retarget_refused {v : Value} {fault : Fault} (hwhole : m.Whole)
    (hv : ∀ q, v = .object q → q < m.objects.size) (h : retarget id v m = (.error fault, m')) :
    ∃ q, v = .object q ∧ m'.deeps = (m.dropTree id).deeps ∧
      Leaves id (m.visits maxDepth q).1 (m.dropTree id) m' := by
  cases moved_of_retarget h with
  | @refused q fault m₁ hvalue hattach =>
    have hdrop := rewatches_dropTree m id
    have hexists : q < (m.dropTree id).objects.size := by
      rw [hdrop.size]
      exact hv q hvalue
    have hrefused := attach_refused (hwhole.rewatches hdrop) hexists hattach
    rw [visits_congr hdrop.store] at hrefused
    exact ⟨q, hvalue, hrefused⟩

/-- A deep watch that is refused a new object at a key has nothing there any more, and the watchers
are left of what it got done with. -/
theorem mend_refused {o : ObjectId} {w : Nat} {key : String} {v : Value} {fault : Fault}
    (hwhole : m.Whole) (hv : ∀ q, v = .object q → q < m.objects.size)
    (h : mend id o w key v m = (.error fault, m')) :
    ∃ t depth node q, m.tree? id = some t ∧ t.find? o w 1 = some (depth, node) ∧ v = .object q ∧
      Leaves id (m.visits (maxDepth - depth) q).1
        (m.cut id t o w (·.filter (·.1 != key)) (atKey key node.children)) m' := by
  cases mended_of_mend h with
  | @refused t node depth q fault m₁ ht hfind _ hvalue hattach =>
    have hcut :=
      (swapped_cut m id t o w (·.filter (·.1 != key)) (atKey key node.children)).rewatches
    have hexists : q < (m.cut id t o w (·.filter (·.1 != key))
        (atKey key node.children)).objects.size := by
      rw [hcut.size]
      exact hv q hvalue
    have hrefused := (attach_refused (hwhole.rewatches hcut) hexists hattach).2
    rw [visits_congr hcut.store] at hrefused
    exact ⟨t, depth, node, q, ht, hfind, hvalue, hrefused⟩

/-- The objects on which a watcher is left if a deep watch of a name is refused: those inside the
value of the property that building gets done with before it meets one that lies too deep. -/
def leftovers (m : Model) (o : ObjectId) (n : ScopedName) : List ObjectId :=
  match resolve o n m with
  | (.error _, _) => []
  | (.ok owner, _) => (m.get owner n.name).object?.elim [] fun q => (m.visits maxDepth q).1

/-- A deep watch that is refused when it is set up has no tree. -/
theorem bindDeep_refused {o : ObjectId} {n : ScopedName} {callback : CallbackId} {fault : Fault}
    (hwhole : m.Whole) (h : bindDeep o n callback m = (.error fault, m')) :
    Leaves m.deeps.size (m.leftovers o n) m m' ∧ ∀ owner m₁, resolve o n m = (.ok owner, m₁) →
      m'.deep? m.deeps.size = some ⟨owner, n.name, callback, none⟩ := by
  unfold leftovers
  cases setUp_of_bindDeep h with
  | unresolved hres =>
    have hresolve := subscribes_resolve hres
    rw [hres]
    refine ⟨⟨hresolve.store, fun p => ?_, hresolve.registrationsOf, fun p => ?_⟩, ?_⟩
    · rw [hresolve.connectionsOf, List.append_nil]
    · exact ⟨[], by rw [List.append_nil, hresolve.watchersOf], rfl, fun _ hx => by cases hx⟩
    · intro _ _ heq
      cases heq
  | @refused owner fault a b hres hret =>
    have hresolve := subscribes_resolve hres
    have hconnections (p : ObjectId) : a.connectionsOf p = m.connectionsOf p := by
      rw [hresolve.connectionsOf, List.append_nil]
    let d := a.deeps.size
    let a' := a.addDeep ⟨owner, n.name, callback, none⟩
    have hstore : ∀ p, a'.store p = m.store p := hresolve.store
    have hget : a.get owner n.name = m.get owner n.name := congrArg (·.get n.name) (hstore owner)
    have hv (q : ObjectId) (hq : a.get owner n.name = .object q) : q < a'.objects.size := by
      rw [hget] at hq
      exact Nat.lt_of_lt_of_eq (hwhole owner q (Store.get_mem_values hq)) hresolve.size.symm
    have hwhole' : a'.Whole := by
      intro p q hq
      refine Nat.lt_of_lt_of_eq (hwhole p q ?_) hresolve.size.symm
      rw [← hstore]
      exact hq
    have hnew : a'.deep? d = some ⟨owner, n.name, callback, none⟩ := by
      rw [deep?_addDeep, if_pos rfl]
    -- The new deep watch has no tree that could be taken down.
    have hdrop : a'.dropTree d = a'.setTree d none := by
      have hbare : a'.tree? d = none := by
        unfold tree?
        rw [hnew]
        rfl
      unfold dropTree
      rw [hbare]
      rfl
    obtain ⟨q, hq, hdeeps, hleaves⟩ := retarget_refused hwhole' hv hret
    rw [hdrop] at hdeeps hleaves
    rw [hres]
    dsimp only
    rw [← hget, hq, ← hresolve.deeps]
    refine ⟨?_, fun owner' m₁' heq => ?_⟩
    · show Leaves d (m.visits maxDepth q).1 m m'
      rw [← visits_congr hstore]
      exact hleaves.of_same hstore hconnections hresolve.registrationsOf hresolve.watchersOf
    · obtain ⟨howner, _⟩ := Prod.mk.inj heq
      obtain rfl := Except.ok.inj howner
      show m'.deeps[d]? = _
      rw [hdeeps]
      show (a'.setTree d none).deep? d = _
      rw [deep?_setTree, if_pos rfl, hnew]
      rfl

/-- A watcher of a deep watch without a tree mends nothing and tells the value of the property. -/
theorem run_of_bare {γ : Type} {listen : Listener γ} {w : World γ} {deep : DeepWatch}
    (h : w.model.deep? id = some deep) (hbare : deep.tree = none) (p : ObjectId) (key : String)
    (v : Value) (seq : Nat) :
    Watcher.run listen p key v ⟨seq, .mend id⟩ w = deep.tell listen w := by
  have htree : w.model.tree? id = none := by
    unfold tree?
    rw [h]
    exact hbare
  unfold Watcher.run
  dsimp only
  rw [h, mend_of_not_found fun _ => by rw [htree]; rfl]

/-- A refusal changes no handler and no registration, and every watcher that was added before it
stays: one for each object that building got done with. Those of a deep watch that was never set up
go on telling its function. -/
theorem refused_leaves {fault : Fault} (hwhole : m.Whole) :
    (∀ o n callback, bindDeep o n callback m = (.error fault, m') →
      Leaves m.deeps.size (m.leftovers o n) m m' ∧
      ∀ owner m₁, resolve o n m = (.ok owner, m₁) →
        ∀ (γ : Type) (listen : Listener γ) (client : γ) (p : ObjectId) key v seq,
          Watcher.run listen p key v ⟨seq, .mend m.deeps.size⟩ ⟨m', client⟩ =
            DeepWatch.tell listen ⟨owner, n.name, callback, none⟩ ⟨m', client⟩) ∧
    (∀ id v, (∀ q, v = .object q → q < m.objects.size) → retarget id v m = (.error fault, m') →
      ∃ q, v = .object q ∧ Leaves id (m.visits maxDepth q).1 (m.dropTree id) m') ∧
    ∀ id o w key v, (∀ q, v = .object q → q < m.objects.size) →
      mend id o w key v m = (.error fault, m') →
      ∃ t depth node q, m.tree? id = some t ∧ t.find? o w 1 = some (depth, node) ∧ v = .object q ∧
        Leaves id (m.visits (maxDepth - depth) q).1
          (m.cut id t o w (·.filter (·.1 != key)) (atKey key node.children)) m' := by
  refine ⟨fun o n callback h => ?_, fun id v hv h => ?_, fun id o w key v hv h => ?_⟩
  · obtain ⟨hleaves, hdeep⟩ := bindDeep_refused hwhole h
    refine ⟨hleaves, fun owner m₁ hres γ listen client p key v seq => ?_⟩
    exact run_of_bare (w := ⟨m', client⟩) (hdeep owner m₁ hres) rfl p key v seq
  · obtain ⟨q, hq, _, hleaves⟩ := retarget_refused hwhole hv h
    exact ⟨q, hq, hleaves⟩
  · exact mend_refused hwhole hv h

/-- A property whose value has a leaf beside a list that contains itself. -/
def knot : Model :=
  { objects := #[⟨.map (Dict.ofList [("x", .object 1)]), some {}⟩,
      ⟨.map (Dict.ofList [("leaf", .object 2), ("loop", .object 3)]), none⟩,
      ⟨.map Dict.empty, none⟩, ⟨.list [.object 3], none⟩]
    holds := [.object 0] }

set_option maxRecDepth 20000 in
/-- A function that is refused to watch the knot leaves a watcher on the leaf. -/
theorem refused_leaves_knot :
    knot.Whole ∧ Leaves 0 [2] knot (bindDeep 0 ⟨0, "x"⟩ 7 knot).2 := by
  have hwhole : knot.Whole := by
    intro o q hq
    match o with
    | 0 =>
      obtain rfl := Value.object.inj (List.mem_singleton.1 hq)
      decide
    | 1 =>
      rcases List.mem_cons.1 hq with hq | hq
      · obtain rfl := Value.object.inj hq
        decide
      · obtain rfl := Value.object.inj (List.mem_singleton.1 hq)
        decide
    | 2 => cases hq
    | 3 =>
      obtain rfl := Value.object.inj (List.mem_singleton.1 hq)
      decide
    | o + 4 => cases hq
  have hrefused : bindDeep 0 ⟨0, "x"⟩ 7 knot =
      (.error .nestedObjects, (bindDeep 0 ⟨0, "x"⟩ 7 knot).2) := rfl
  exact ⟨hwhole, ((refused_leaves hwhole).1 0 ⟨0, "x"⟩ 7 hrefused).1⟩

/-- The knot after a function was refused to watch its property, with a client that only listens. -/
def refusedKnot : Except Fault Nat × World History :=
  Scope.bindObject (fun n => World.record (.told n)) 0 ⟨0, "x"⟩ 7 ⟨knot, []⟩

set_option maxRecDepth 20000 in
/-- The refusal leaves a watcher on the leaf, and the function is told when the leaf changes. -/
theorem refused_leaves_not_clean :
    refusedKnot.1 = .error .nestedObjects ∧ knot.watchersOf 2 = [] ∧
    refusedKnot.2.model.watchersOf 2 = [⟨1, .mend 0⟩] ∧ refusedKnot.2.client = [] ∧
    (Proxy.set (fun n => World.record (.told n)) 2 "k" (.bool true) refusedKnot.2).2.client =
      [.told (.value 7 (.object 1))] := by
  exact ⟨rfl, rfl, rfl, rfl, rfl⟩

end Model

end LiveScope
