import LiveScope.Proofs.Dict
import LiveScope.Proofs.Store
import LiveScope.Proofs.Model.Trees
import LiveScope.Proofs.Model.Watching
import Mathlib.Tactic.Tauto

/-!
# Building trees

Building the tree of an object adds one watcher for each node, under a number that was not given out
before, and no others (`Model.Grown`), and the tree mirrors what is in the object
(`WatchTree.Mirrors`).
-/

namespace LiveScope

namespace Model

variable {m m' m'' : Model} {id : DeepId}

/-- Whether every object that is in an object exists. -/
def Whole (m : Model) : Prop := ∀ o q, .object q ∈ (m.store o).values → q < m.objects.size

/-- What rewatches leaves all objects where they are. -/
theorem Whole.rewatches (h : m.Whole) (hr : m.Rewatches m') : m'.Whole := by
  intro o q hq
  rw [hr.store] at hq
  rw [hr.size]
  exact h o q hq

/-- The keys of an object that lead to objects, in the order of the store. -/
def objectMembers (m : Model) (o : ObjectId) : List (String × ObjectId) :=
  (m.store o).entries.filterMap fun (key, v) => v.object?.map (key, ·)

/-- The keys of an object that lead to objects, in ascending order. -/
def members (m : Model) (o : ObjectId) : List (String × ObjectId) :=
  (Dict.ofList (m.objectMembers o)).entries

/-- What is at a key of an object is among its values. -/
theorem mem_values_of_mem_objectMembers {o q : ObjectId} {key : String}
    (h : (key, q) ∈ m.objectMembers o) : .object q ∈ (m.store o).values := by
  obtain ⟨⟨k, v⟩, hmem, hv⟩ := List.mem_filterMap.1 h
  obtain ⟨q', hq', heq⟩ := Option.map_eq_some_iff.1 hv
  obtain ⟨rfl, rfl⟩ := Prod.mk.inj heq
  rw [← Value.object?_eq_some_iff.1 hq']
  exact (List.of_mem_zip hmem).2

/-- The keys of an object that lead to objects are different from each other. -/
theorem keys_objectMembers_nodup (m : Model) (o : ObjectId) :
    ((m.objectMembers o).map (·.1)).Nodup := by
  have hsub : ((m.objectMembers o).map (·.1)).Sublist ((m.store o).entries.map (·.1)) := by
    unfold objectMembers
    generalize (m.store o).entries = entries
    induction entries with
    | nil => exact .refl _
    | cons e entries ih =>
      obtain ⟨key, v⟩ := e
      rw [List.filterMap_cons]
      dsimp only
      cases v.object? with
      | none => exact ih.cons key
      | some q => exact ih.cons_cons key
  rw [Store.map_fst_entries] at hsub
  exact hsub.nodup (m.store o).keys_nodup

/-- `m'` has a watcher for `id` beside those of `m` for each of the given objects with numbers,
which were not given out in `m`, and else differs at most in which objects have a binding. -/
structure Grown (id : DeepId) (pairs : List (ObjectId × Nat)) (m m' : Model) : Prop where
  /-- Nothing else is different but which objects have a binding. -/
  rewatches : m.Rewatches m'
  /-- The deep watches are the same. -/
  deeps : m'.deeps = m.deeps
  /-- No pair occurs twice. -/
  nodup : pairs.Nodup
  /-- The numbers are new. -/
  fresh : ∀ x ∈ pairs, m.lastIdOf x.1 < x.2 ∧ x.2 ≤ m'.lastIdOf x.1
  /-- The new watchers stand behind the old ones, in the order of their numbers, one for each pair.
  -/
  watchersOf : ∀ p, ∃ new, m'.watchersOf p = m.watchersOf p ++ new ∧
    new.Pairwise (·.seq < ·.seq) ∧ ∀ x, x ∈ new ↔ x.watch = .mend id ∧ (p, x.seq) ∈ pairs

namespace Grown

variable {pairs pairs' : List (ObjectId × Nat)}

/-- The order in which the watchers are given does not matter. -/
theorem perm (h : Grown id pairs m m') (hp : pairs'.Perm pairs) : Grown id pairs' m m' where
  rewatches := h.rewatches
  deeps := h.deeps
  nodup := hp.nodup_iff.2 h.nodup
  fresh x hx := h.fresh x (hp.mem_iff.1 hx)
  watchersOf p := by
    obtain ⟨new, hnew, hpair, hmem⟩ := h.watchersOf p
    exact ⟨new, hnew, hpair, fun x => (hmem x).trans (and_congr_right fun _ => hp.mem_iff.symm)⟩

/-- Nothing is added. -/
theorem refl (id : DeepId) (m : Model) : Grown id [] m m where
  rewatches := Rewatches.steady.refl m
  deeps := rfl
  nodup := .nil
  fresh _ h := by cases h
  watchersOf p := by
    refine ⟨[], (List.append_nil _).symm, .nil, fun x => ?_⟩
    simp

/-- Growing twice adds both. -/
theorem trans (h : Grown id pairs m m') (h' : Grown id pairs' m' m'') :
    Grown id (pairs ++ pairs') m m'' where
  rewatches := Rewatches.steady.trans h.rewatches h'.rewatches
  deeps := h'.deeps.trans h.deeps
  nodup := by
    refine List.nodup_append.2 ⟨h.nodup, h'.nodup, fun x hx y hy heq => ?_⟩
    have := (h.fresh x hx).2
    have := (h'.fresh y hy).1
    subst heq
    omega
  fresh x hx := by
    have hle := h.rewatches.lastIdOf x.1
    have hle' := h'.rewatches.lastIdOf x.1
    rcases List.mem_append.1 hx with hx | hx
    · have := h.fresh x hx
      omega
    · have := h'.fresh x hx
      omega
  watchersOf p := by
    obtain ⟨new, hnew, hpair, hmem⟩ := h.watchersOf p
    obtain ⟨new', hnew', hpair', hmem'⟩ := h'.watchersOf p
    refine ⟨new ++ new', ?_, List.pairwise_append.2 ⟨hpair, hpair', fun x hx y hy => ?_⟩, ?_⟩
    · rw [hnew', hnew, List.append_assoc]
    · have := (h.fresh _ ((hmem x).1 hx).2).2
      have := (h'.fresh _ ((hmem' y).1 hy).2).1
      dsimp only at *
      omega
    · intro x
      rw [List.mem_append, hmem, hmem', List.mem_append]
      tauto

end Grown

/-- Giving an object a binding adds no watcher. -/
theorem grown_ensureBinding (id : DeepId) (m : Model) (o : ObjectId) :
    Grown id [] m (m.ensureBinding o) where
  rewatches := rewatches_ensureBinding m o
  deeps := rfl
  nodup := .nil
  fresh _ h := by cases h
  watchersOf p := by
    refine ⟨[], ?_, .nil, fun x => ?_⟩
    · rw [List.append_nil]
      exact elim_ensureBinding (·.watchers) m o p
    · constructor
      · intro h
        cases h
      · rintro ⟨_, h⟩
        cases h

/-- Watching an object adds one watcher. -/
theorem grown_watch {o : ObjectId} (h : m.isBound o = true) :
    Grown id [(o, m.nextId o)] m (m.watch o (.mend id)).2 where
  rewatches := rewatches_watch m o _
  deeps := rfl
  nodup := List.pairwise_singleton _ _
  fresh x hx := by
    obtain rfl := List.mem_singleton.1 hx
    dsimp only
    rw [lastIdOf_watch h, if_pos rfl, nextId_eq]
    omega
  watchersOf p := by
    rw [watchersOf_watch h]
    by_cases hp : p = o
    · subst hp
      rw [if_pos rfl]
      refine ⟨_, rfl, List.pairwise_singleton _ _, fun ⟨seq, watch⟩ => ?_⟩
      simp [and_comm]
    · rw [if_neg hp]
      refine ⟨[], (List.append_nil _).symm, .nil, fun x => ?_⟩
      simp [hp]

end Model

/-- Whether below every node there are the objects that are in its object, at their keys. -/
def WatchTree.Mirrors (m : Model) (t : WatchTree) : Prop :=
  t.Every fun o _ labels => labels = m.members o

namespace Model

variable {m m' m'' : Model} {id : DeepId}

/-- Watches the object at one key. -/
def attachMember (id : DeepId) (levels : Nat) (member : String × ObjectId) :
    Edit (String × WatchTree) := do
  modify (·.ensureBinding member.2)
  return (member.1, ← attach id levels member.2)

/-- An object has a binding when its tree is built. -/
theorem attachMember_eq (id : DeepId) (levels : Nat) (key : String) (o : ObjectId) (m : Model) :
    attachMember id levels (key, o) m =
      (attach id levels o >>= fun t => pure (key, t)) (m.ensureBinding o) :=
  Edit.bind_of_ok (e := modify _) rfl

/-- A tree is built from the trees of the objects below it. -/
theorem attach_succ (id : DeepId) (levels : Nat) (o : ObjectId) :
    attach id (levels + 1) o = (do
      let m ← get
      let children ← (m.objectMembers o).mapM (attachMember id levels)
      let w ← modifyGet (·.watch o (.mend id))
      return .node o w (Dict.ofList children).entries) :=
  rfl

/-- If not all trees of several objects can be built, there is one that cannot, and what was built
before it only rewatches. -/
theorem attachMembers_error {levels : Nat} {xs : List (String × ObjectId)} {fault : Fault}
    (h : xs.mapM (attachMember id levels) m = (.error fault, m')) :
    ∃ x ∈ xs, ∃ m₁, m.Rewatches m₁ ∧ attach id levels x.2 m₁ = (.error fault, m') := by
  induction xs generalizing m with
  | nil => cases h
  | cons x xs ih =>
    rw [List.mapM_cons] at h
    rcases Edit.error_of_bind h with hfirst | ⟨_, _, hfirst, hrest⟩
    · rw [attachMember_eq] at hfirst
      rcases Edit.error_of_bind hfirst with hattach | ⟨_, _, _, hdone⟩
      · exact ⟨x, List.mem_cons_self, _, rewatches_ensureBinding m x.2, hattach⟩
      · cases hdone
    · rw [attachMember_eq] at hfirst
      obtain ⟨_, m₁, hattach, hdone⟩ := Edit.ok_of_bind hfirst
      obtain ⟨_, rfl⟩ := Prod.mk.inj hdone
      have hr : m.Rewatches m₁ := Rewatches.steady.trans
        (rewatches_ensureBinding m x.2) ((Rewatches.watches.attach id levels x.2).of_run hattach)
      rcases Edit.error_of_bind hrest with hothers | ⟨_, _, _, hdone⟩
      · obtain ⟨y, hy, m₂, hr', hattach'⟩ := ih hothers
        exact ⟨y, List.mem_cons_of_mem x hy, m₂, Rewatches.steady.trans hr hr', hattach'⟩
      · cases hdone

/-- The tree of an object cannot be built only if that of an object in it cannot. -/
theorem attach_succ_error {levels : Nat} {o : ObjectId} {fault : Fault}
    (h : attach id (levels + 1) o m = (.error fault, m')) :
    ∃ x ∈ m.objectMembers o, ∃ m₁, m.Rewatches m₁ ∧
      attach id levels x.2 m₁ = (.error fault, m') := by
  rw [attach_succ, Edit.bind_of_ok (e := get) rfl] at h
  rcases Edit.error_of_bind h with hmembers | ⟨_, m₁, _, hwatch⟩
  · exact attachMembers_error hmembers
  · rw [Edit.bind_of_ok (e := modifyGet _) rfl] at hwatch
    cases hwatch

/-- The only way to fail is that an object lies too deep. -/
theorem attach_error {levels : Nat} {o : ObjectId} {fault : Fault}
    (h : attach id levels o m = (.error fault, m')) : fault = .nestedObjects := by
  induction levels generalizing m o with
  | zero => exact (Except.error.inj (Prod.mk.inj h).1).symm
  | succ levels ih =>
    obtain ⟨_, _, _, _, hbelow⟩ := attach_succ_error h
    exact ih hbelow

/-- What a model's stores hold decides which trees mirror it. -/
theorem mirrors_congr (h : ∀ o, m'.store o = m.store o) {t : WatchTree} (ht : t.Mirrors m) :
    t.Mirrors m' := by
  induction ht with
  | node root below ih =>
    rename_i o w children
    refine .node ?_ ih
    unfold members objectMembers
    rw [h]
    exact root

/-- The trees of several objects add the watchers of their nodes and mirror the objects. -/
theorem attachMembers_of_ok {levels : Nat}
    (ih : ∀ {m m' : Model} {o : ObjectId} {t : WatchTree}, m.Whole → m.isBound o = true →
      attach id levels o m = (.ok t, m') →
      Grown id t.watchers m m' ∧ t.object = o ∧ t.Mirrors m)
    {xs : List (String × ObjectId)} {children : List (String × WatchTree)} (hwhole : m.Whole)
    (hexist : ∀ x ∈ xs, x.2 < m.objects.size)
    (h : xs.mapM (attachMember id levels) m = (.ok children, m')) :
    Grown id (children.flatMap (·.2.watchers)) m m' ∧ WatchTree.labels children = xs ∧
      ∀ e ∈ children, e.2.Mirrors m := by
  induction xs generalizing m children with
  | nil =>
    obtain ⟨hchildren, rfl⟩ := Prod.mk.inj h
    obtain rfl := Except.ok.inj hchildren
    refine ⟨.refl id m, rfl, ?_⟩
    intro _ he
    cases he
  | cons x xs ihxs =>
    obtain ⟨key, o⟩ := x
    rw [List.mapM_cons] at h
    obtain ⟨e, m₂, he, h⟩ := Edit.ok_of_bind h
    obtain ⟨rest, m₃, hrest, h⟩ := Edit.ok_of_bind h
    obtain ⟨hchildren, rfl⟩ := Prod.mk.inj h
    obtain rfl := Except.ok.inj hchildren
    rw [attachMember_eq] at he
    obtain ⟨t, m₁, ht, he⟩ := Edit.ok_of_bind he
    obtain ⟨hentry, rfl⟩ := Prod.mk.inj he
    obtain rfl := Except.ok.inj hentry
    -- The tree of the first object is built in a model with a binding for it, and the same content.
    have hensure := grown_ensureBinding id m o
    have hbound := isBound_ensureBinding_self (hexist (key, o) List.mem_cons_self)
    obtain ⟨hgrown, hobject, hmirrors⟩ := ih (hwhole.rewatches hensure.rewatches) hbound ht
    have hfirst : Grown id t.watchers m m₁ := hensure.trans hgrown
    obtain ⟨hgrown', hlabels, hmirrors'⟩ := ihxs (hwhole.rewatches hfirst.rewatches)
      (fun x hx => by
        rw [hfirst.rewatches.size]
        exact hexist x (List.mem_cons_of_mem _ hx)) hrest
    refine ⟨hfirst.trans hgrown', ?_, ?_⟩
    · unfold WatchTree.labels at *
      rw [List.map_cons, hlabels, hobject]
    · intro e he
      rcases List.mem_cons.1 he with rfl | he
      · exact mirrors_congr (fun p => (store_ensureBinding m o p).symm) hmirrors
      · exact mirrors_congr (fun p => (hfirst.rewatches.store p).symm) (hmirrors' e he)

/-- A tree that is built adds the watchers of its nodes and mirrors its object. -/
theorem attach_of_ok {levels : Nat} {o : ObjectId} {t : WatchTree} (hwhole : m.Whole)
    (hbound : m.isBound o = true) (h : attach id levels o m = (.ok t, m')) :
    Grown id t.watchers m m' ∧ t.object = o ∧ t.Mirrors m := by
  induction levels generalizing m m' o t with
  | zero => cases h
  | succ levels ih =>
    rw [attach_succ, Edit.bind_of_ok (e := get) rfl] at h
    obtain ⟨children, m₁, hchildren, h⟩ := Edit.ok_of_bind h
    rw [Edit.bind_of_ok (e := modifyGet _) rfl] at h
    obtain ⟨ht, rfl⟩ := Prod.mk.inj h
    obtain rfl := Except.ok.inj ht
    obtain ⟨hgrown, hlabels, hmirrors⟩ := attachMembers_of_ok ih hwhole
      (fun x hx => hwhole o x.2 (mem_values_of_mem_objectMembers hx)) hchildren
    have hkeys : (children.map (·.1)).Nodup := by
      have := keys_objectMembers_nodup m o
      rw [← hlabels] at this
      simpa [WatchTree.labels, Function.comp_def] using this
    have hperm := Dict.ofList_perm hkeys
    have hwatch : Grown id [(o, m₁.nextId o)] m₁ (m₁.watch o (.mend id)).2 :=
      grown_watch (hgrown.rewatches.isBound o hbound)
    refine ⟨(hgrown.trans hwatch).perm ?_, rfl, .node ?_ fun e he => ?_⟩
    · rw [WatchTree.watchers_node]
      exact ((hperm.flatMap_right _).cons _).trans (List.perm_append_singleton _ _).symm
    · unfold WatchTree.labels members
      rw [Dict.map_entries_ofList, ← hlabels]
      rfl
    · exact hmirrors e (hperm.mem_iff.1 he)

/-- The keys below a node that mirrors an object are different from each other. -/
theorem keyed_of_mirrors {t : WatchTree} (h : t.Mirrors m) : t.Keyed := by
  refine h.imp fun o _ labels _ heq => ?_
  rw [heq]
  exact (Dict.ofList (m.objectMembers o)).ascending.nodup_keys

end Model

end LiveScope
