import LiveScope.Proofs.Model.Refusing
import Mathlib.Logic.Relation

/-!
# What would be built anew

The tree of a deep watch is kept up piece by piece. What it is compared with is the tree that would
be built now (`Model.rebuilt`), up to the numbers of the watchers. An object whose content is at
most so deep can be built, and whatever mirrors it is the same as what is built
(`Model.rebuilt_eq`).

To say that building does not fail while a tree is mended, every node of the tree has to lie where
what is inside its object still fits (`WatchTree.Fits`). A change of one object keeps it so, because
nothing inside an object leads back to it (`Model.Within.acyclic`).
-/

namespace LiveScope

open Relation (ReflTransGen TransGen)

namespace Model

/-- Whether one object is in another. -/
def Contains (m : Model) (o q : ObjectId) : Prop := .object q ∈ (m.store o).values

/-- Whether one object is another, or somewhere inside it. -/
def Reaches (m : Model) : ObjectId → ObjectId → Prop := ReflTransGen m.Contains

/-- Whether what is inside an object is at most `levels` objects deep, itself included. -/
def Within (m : Model) : (levels : Nat) → ObjectId → Prop
  | 0, _ => False
  | levels + 1, o => ∀ q, m.Contains o q → Within m levels q

variable {m m' : Model} {id : DeepId} {levels : Nat} {o q : ObjectId}

/-! ## Objects in objects -/

/-- What is in an object is there at some key. -/
theorem contains_iff : m.Contains o q ↔ ∃ key, (key, q) ∈ m.members o := by
  have hperm := Dict.ofList_perm (m.keys_objectMembers_nodup o)
  have hmem (e : String × ObjectId) : e ∈ m.members o ↔ e ∈ m.objectMembers o := hperm.mem_iff
  constructor
  · intro h
    obtain ⟨i, hi, hvalue⟩ := List.mem_iff_getElem.1 h
    have hlength : i < (m.store o).keys.length := by
      cases hs : m.store o with
      | map entries =>
        rw [hs] at hi
        simpa [Store.keys, Store.values, Dict.keys, Dict.values] using hi
      | list items =>
        rw [hs] at hi
        simpa [Store.keys, Store.values] using hi
    refine ⟨(m.store o).keys[i], (hmem _).2 (List.mem_filterMap.2
      ⟨((m.store o).keys[i], .object q), ?_, rfl⟩)⟩
    refine List.mem_iff_getElem.2 ⟨i, ?_, ?_⟩
    · unfold Store.entries
      rw [List.length_zip]
      omega
    · unfold Store.entries
      rw [List.getElem_zip, hvalue]
  · rintro ⟨key, h⟩
    exact mem_values_of_mem_objectMembers ((hmem _).1 h)

/-- What is inside an object is inside everything that contains it. -/
theorem Within.of_mem {key : String} (h : m.Within (levels + 1) o) (hq : (key, q) ∈ m.members o) :
    m.Within levels q :=
  h q (contains_iff.2 ⟨key, hq⟩)

/-- Nothing inside an object leads back to it, if what is inside it comes to an end. -/
theorem Within.acyclic (h : m.Within levels o) : ¬ TransGen m.Contains o o := by
  induction levels generalizing o with
  | zero => exact h.elim
  | succ levels ih =>
    intro hcycle
    -- The next object on the way back lies on the same circle.
    obtain ⟨q, hq, hback⟩ := TransGen.head'_iff.1 hcycle
    exact ih (h q hq) (TransGen.tail'_iff.2 ⟨o, hback, hq⟩)

/-- A change of an object does not matter to what does not lead there. -/
theorem Within.of_changed (h : m.Within levels q) (hstore : ∀ p, p ≠ o → m'.store p = m.store p)
    (hq : ¬ m.Reaches q o) : m'.Within levels q := by
  induction levels generalizing q with
  | zero => exact h
  | succ levels ih =>
    have hne : q ≠ o := fun heq => hq (heq ▸ .refl)
    intro p hp
    unfold Contains at hp
    rw [hstore q hne] at hp
    exact ih (h p hp) fun hpo => hq (.head hp hpo)

/-- How deep what is inside an object is depends on the contents alone. -/
theorem Within.congr (h : m.Within levels q) (hstore : ∀ p, m'.store p = m.store p) :
    m'.Within levels q := by
  induction levels generalizing q with
  | zero => exact h
  | succ levels ih =>
    intro p hp
    unfold Contains at hp
    rw [hstore] at hp
    exact ih (h p hp)

/-- What is inside an object that exists does not depend on what other objects there are. -/
theorem Within.of_grown (hwhole : m.Whole)
    (hstore : ∀ p, p < m.objects.size → m'.store p = m.store p) (h : m.Within levels q)
    (hq : q < m.objects.size) : m'.Within levels q := by
  induction levels generalizing q with
  | zero => exact h
  | succ levels ih =>
    intro p hp
    unfold Contains at hp
    rw [hstore q hq] at hp
    exact ih (h p hp) (hwhole q p hp)

/-- What other objects there are does not matter to how deep what is inside an object that exists
is. -/
theorem within_iff_of_grown (hwhole : m.Whole)
    (hstore : ∀ p, p < m.objects.size → m'.store p = m.store p) (hq : q < m.objects.size) :
    m'.Within levels q ↔ m.Within levels q := by
  refine ⟨fun h => ?_, fun h => h.of_grown hwhole hstore hq⟩
  induction levels generalizing q with
  | zero => exact h
  | succ levels ih =>
    intro p hp
    have hp' : m'.Contains q p := by
      unfold Contains
      rw [hstore q hq]
      exact hp
    exact ih (hwhole q p hp) (h p hp')

end Model

/-! ## Trees of what is inside an object -/

namespace WatchTree

variable {m m' : Model} {levels : Nat} {o : ObjectId} {w : Nat}

/-- Whether below every node of a tree that may have `levels` levels there is room for what is
inside its object. -/
inductive Fits (m : Model) : Nat → WatchTree → Prop
  | node {levels : Nat} {o : ObjectId} {w : Nat} {children : List (String × WatchTree)}
      (root : m.Within (levels + 1) o) (below : ∀ e ∈ children, Fits m levels e.2) :
      Fits m (levels + 1) (.node o w children)

/-- The object at a key below a node that mirrors is in the object of the node. -/
theorem mem_members {children : List (String × WatchTree)} (h : labels children = m.members o)
    {e : String × WatchTree} (he : e ∈ children) : (e.1, e.2.object) ∈ m.members o := by
  rw [← h]
  exact List.mem_map_of_mem (f := fun e : String × WatchTree => (e.1, e.2.object)) he

/-- A tree fits that mirrors what was there before a change of one object, if what is in the root
fits before and after. -/
theorem Mirrors.fits {t : WatchTree} (h : t.Mirrors m)
    (hstore : ∀ p, p ≠ o → m'.store p = m.store p) (hbefore : m.Within levels t.object)
    (hafter : m'.Within levels t.object) : t.Fits m' levels := by
  induction h generalizing levels with
  | node root below ih =>
    rename_i o' w' children
    cases levels with
    | zero => exact hbefore.elim
    | succ levels =>
      refine .node hafter fun e he => ih e he (hbefore.of_mem (mem_members root he)) ?_
      have hmem := Model.contains_iff.2 ⟨_, mem_members root he⟩
      by_cases ho : o' = o
      · -- Below the object that changes nothing leads back to it, so that nothing changes there.
        subst ho
        refine (hbefore _ hmem).of_changed hstore fun hback => hbefore.acyclic ?_
        exact TransGen.head'_iff.2 ⟨_, hmem, hback⟩
      · refine hafter _ ?_
        show .object e.2.object ∈ (m'.store o').values
        rw [hstore o' ho]
        exact hmem

namespace Fits

variable {t : WatchTree}

/-- What is inside the root of a tree that fits. -/
theorem root_spec (h : t.Fits m levels) : m.Within levels t.object := by
  cases h with
  | node root _ => exact root

/-- A node that is found fits into the levels that are left. -/
theorem find? (h : t.Fits m levels) {depth depth' : Nat} {s : WatchTree}
    (hfind : t.find? o w depth = some (depth', s)) :
    ∃ left, depth' + left = depth + levels ∧ s.Fits m left := by
  induction h generalizing depth with
  | node root below ih =>
    rename_i levels o' w' children
    rw [find?_node] at hfind
    split at hfind
    · obtain ⟨rfl, rfl⟩ := Prod.mk.inj (Option.some.inj hfind)
      exact ⟨levels + 1, rfl, .node root below⟩
    · obtain ⟨e, he, hfind⟩ := List.exists_of_findSome?_eq_some hfind
      obtain ⟨left, hleft, hfits⟩ := ih e he hfind
      exact ⟨left, by omega, hfits⟩

/-- A change of the children of one node fits if what is put there does. -/
theorem modify {f : List (String × WatchTree) → List (String × WatchTree)} (h : t.Fits m levels)
    (hf : ∀ left children, (WatchTree.node o w children).Fits m (left + 1) →
      ∀ e ∈ f children, e.2.Fits m left) : (t.modify o w f).Fits m levels := by
  induction h with
  | node root below ih =>
    rename_i levels o' w' children
    rw [modify_node]
    split
    · rename_i heq
      obtain ⟨rfl, rfl⟩ := heq
      exact .node root (hf levels children (.node root below))
    · refine .node root fun e he => ?_
      obtain ⟨e', he', rfl⟩ := List.mem_map.1 he
      exact ih e' he'

/-- A tree of objects that exist goes on to fit, whatever is added. -/
theorem of_grown (h : t.Fits m levels) (hwhole : m.Whole)
    (hstore : ∀ p, p < m.objects.size → m'.store p = m.store p)
    (hexist : ∀ x ∈ t.watchers, x.1 < m.objects.size) : t.Fits m' levels := by
  induction h with
  | node root below ih =>
    rw [watchers_node] at hexist
    refine .node (root.of_grown hwhole hstore (hexist _ List.mem_cons_self)) fun e he => ?_
    exact ih e he fun x hx => hexist x (List.mem_cons_of_mem _ (List.mem_flatMap.2 ⟨e, he, hx⟩))

end Fits

/-- The objects of a tree that mirrors are those that can be reached from its root. -/
theorem Mirrors.mem_watchers_iff {t : WatchTree} (h : t.Mirrors m) :
    (∃ w, (o, w) ∈ t.watchers) ↔ m.Reaches t.object o := by
  constructor
  · rintro ⟨w, hw⟩
    induction h with
    | node root below ih =>
      rw [watchers_node] at hw
      rcases List.mem_cons.1 hw with heq | hw
      · rw [(Prod.mk.inj heq).1]
        exact .refl
      · obtain ⟨e, he, hw⟩ := List.mem_flatMap.1 hw
        exact .head (Model.contains_iff.2 ⟨_, mem_members root he⟩) (ih e he hw)
  · intro hreach
    -- The way to the object goes through one of the nodes below the root.
    generalize hroot : t.object = q at hreach
    induction hreach using ReflTransGen.head_induction_on generalizing t with
    | refl => exact ⟨t.watcher, hroot ▸ t.root_mem_watchers⟩
    | head hq _ ih =>
      obtain ⟨key, hkey⟩ := Model.contains_iff.1 hq
      rw [← hroot, ← h.root_spec] at hkey
      obtain ⟨e, he, heq⟩ := List.mem_map.1 hkey
      obtain ⟨w, hw⟩ := ih (h.below_spec e he) (Prod.mk.inj heq).2
      obtain ⟨o', w', children⟩ := t
      refine ⟨w, ?_⟩
      rw [watchers_node]
      exact List.mem_cons_of_mem _ (List.mem_flatMap.2 ⟨e, he, hw⟩)

mutual

/-- A tree without the numbers of its watchers. -/
def bare : WatchTree → WatchTree
  | node o _ children => node o 0 (bareChildren children)

/-- Several trees without the numbers of their watchers. -/
def bareChildren : List (String × WatchTree) → List (String × WatchTree)
  | [] => []
  | (key, tree) :: rest => (key, tree.bare) :: bareChildren rest

end

/-- The trees below a node are taken one by one. -/
theorem bareChildren_eq (children : List (String × WatchTree)) :
    bareChildren children = children.map fun e => (e.1, e.2.bare) := by
  induction children with
  | nil => rfl
  | cons e children ih =>
    rw [List.map_cons, ← ih]
    rfl

/-- There is only one tree for an object that mirrors what is in it. -/
theorem Mirrors.bare_eq {t t' : WatchTree} (h : t.Mirrors m) (h' : t'.Mirrors m)
    (hobject : t.object = t'.object) : t.bare = t'.bare := by
  have hchildren : ∀ {children children' : List (String × WatchTree)},
      labels children = labels children' →
      (∀ e ∈ children, ∀ e' ∈ children', e.2.object = e'.2.object → e.2.bare = e'.2.bare) →
      bareChildren children = bareChildren children' := by
    intro children children' hlabels hbare
    rw [bareChildren_eq, bareChildren_eq]
    induction children generalizing children' with
    | nil =>
      obtain rfl := List.map_eq_nil_iff.1 hlabels.symm
      rfl
    | cons e children ih =>
      obtain ⟨e', children', rfl, hlabel, hrest⟩ := List.map_eq_cons_iff.1 hlabels.symm
      obtain ⟨hkey, hobject⟩ := Prod.mk.inj hlabel
      rw [List.map_cons, List.map_cons, ih hrest.symm fun a ha b hb =>
        hbare a (List.mem_cons_of_mem _ ha) b (List.mem_cons_of_mem _ hb), hkey,
        hbare e List.mem_cons_self e' List.mem_cons_self hobject.symm]
  induction h generalizing t' with
  | node root below ih =>
    rename_i o w children
    obtain ⟨o', w', children'⟩ := t'
    obtain rfl : o = o' := hobject
    have hlabels : labels children = labels children' := root.trans h'.root_spec.symm
    unfold bare
    rw [hchildren hlabels fun e he e' he' hobject =>
      ih e he (h'.below_spec e' he') hobject]

end WatchTree

/-! ## Building -/

namespace Model

variable {m m' : Model} {id : DeepId} {levels : Nat} {o : ObjectId}

/-- Building gets done with an object exactly if what is inside it is not too deep. -/
theorem visits_done_iff (m : Model) (levels : Nat) (o : ObjectId) :
    (m.visits levels o).2 = true ↔ m.Within levels o := by
  have hall (visit : ObjectId → List ObjectId × Bool) (os : List ObjectId) :
      (visitAll visit os).2 = true ↔ ∀ q ∈ os, (visit q).2 = true := by
    induction os with
    | nil => simp [visitAll]
    | cons q os ih =>
      rw [visitAll, List.forall_mem_cons, ← ih]
      cases visit q with
      | mk passed done => cases done <;> simp
  -- Both go down one level at each object; the order in which it is visited does not matter.
  induction levels generalizing o with
  | zero =>
    constructor
    · intro h
      cases h
    · intro h
      cases h
  | succ levels ih =>
    have hmembers : (∀ q ∈ (m.objectMembers o).map (·.2), (m.visits levels q).2 = true) ↔
        m.Within (levels + 1) o := by
      have hperm := Dict.ofList_perm (m.keys_objectMembers_nodup o)
      constructor
      · intro h q hq
        obtain ⟨key, hkey⟩ := contains_iff.1 hq
        exact (ih q).1 (h q (List.mem_map.2 ⟨_, hperm.mem_iff.1 hkey, rfl⟩))
      · intro h q hq
        obtain ⟨⟨key, q⟩, hkey, rfl⟩ := List.mem_map.1 hq
        exact (ih q).2 (h q (contains_iff.2 ⟨key, hperm.mem_iff.2 hkey⟩))
    rw [← hmembers, ← hall, visits]
    cases visitAll (m.visits levels) ((m.objectMembers o).map (·.2)) with
    | mk passed done => cases done <;> simp

/-- A tree is built for what is not too deep. -/
theorem attach_of_within (id : DeepId) (hwhole : m.Whole) (hbound : m.isBound o = true)
    (h : m.Within levels o) : ∃ t m', attach id levels o m = (.ok t, m') ∧
      Grown id t.watchers m m' ∧ t.object = o ∧ t.Mirrors m := by
  cases hattach : attach id levels o m with
  | mk r m' =>
    obtain ⟨pairs, _, hvisits⟩ := attach_visits hwhole hbound hattach
    have hok := (visits_done_iff m levels o).2 h
    rw [hvisits] at hok
    cases r with
    | error fault => cases hok
    | ok t => exact ⟨t, m', rfl, attach_of_ok hwhole hbound hattach⟩

/-- What is not too deep is what a tree can be built for. -/
theorem within_of_attach {t : WatchTree} (hwhole : m.Whole) (hbound : m.isBound o = true)
    (h : attach id levels o m = (.ok t, m')) : m.Within levels o := by
  obtain ⟨pairs, _, hvisits⟩ := attach_visits hwhole hbound h
  rw [← visits_done_iff, hvisits]
  rfl

/-- A tree that is not built would have been for something too deep. -/
theorem not_within_of_attach {fault : Fault} (h : attach id levels o m = (.error fault, m')) :
    ¬ m.Within levels o := by
  induction levels generalizing m o with
  | zero => exact fun hwithin => hwithin
  | succ levels ih =>
    intro hwithin
    obtain ⟨x, hx, m₁, hr, hbelow⟩ := attach_succ_error h
    exact ih hbelow ((hwithin x.2 (mem_values_of_mem_objectMembers hx)).congr hr.store)

/-- What a tree is built for after others were taken down is not too deep. -/
theorem Rewatches.within_of_attach {m₁ m₂ : Model} {t : WatchTree} (hr : m.Rewatches m₁)
    (hwhole : m.Whole) (hexists : o < m.objects.size)
    (h : attach id levels o (m₁.ensureBinding o) = (.ok t, m₂)) : m.Within levels o := by
  have hensure := Rewatches.steady.trans hr (rewatches_ensureBinding m₁ o)
  have hbound : (m₁.ensureBinding o).isBound o = true := by
    refine isBound_ensureBinding_self ?_
    rw [hr.size]
    exact hexists
  have hwithin := Model.within_of_attach (hwhole.rewatches hensure) hbound h
  exact (within_iff_of_grown hwhole (fun q _ => hensure.store q) hexists).1 hwithin

/-- What a deep watch can be moved to is not too deep, if what it watches already is not. -/
theorem within_of_retarget (hwhole : m.Whole) (hexists : o < m.objects.size)
    (hroot : ∀ t ∈ m.tree? id, m.Within maxDepth t.object)
    (h : retarget id (.object o) m = (.ok (), m')) : m.Within maxDepth o := by
  cases moved_of_retarget h with
  | stays ht hvalue =>
    obtain rfl := Value.object.inj hvalue
    exact hroot _ ht
  | dropped hvalue => cases hvalue
  | built hvalue hattach =>
    obtain rfl := Value.object.inj hvalue
    exact (rewatches_dropTree m id).within_of_attach hwhole hexists hattach

/-- A deep watch that is not moved would have been moved to an object that is too deep. -/
theorem not_within_of_retarget {v : Value} {fault : Fault}
    (h : retarget id v m = (.error fault, m')) : ∃ q, v = .object q ∧ ¬ m.Within maxDepth q := by
  cases moved_of_retarget h with
  | @refused o _ _ hvalue hattach =>
    have hr := Rewatches.steady.trans (rewatches_dropTree m id)
      (rewatches_ensureBinding (m.dropTree id) o)
    exact ⟨_, hvalue, fun hwithin => not_within_of_attach hattach (hwithin.congr hr.store)⟩

/-- The tree that would be built now for a value, without the numbers of its watchers. -/
def rebuilt (m : Model) (id : DeepId) (v : Value) : Except Fault (Option WatchTree) :=
  match v.object? with
  | none => .ok none
  | some q => (attach id maxDepth q (m.ensureBinding q)).1.map fun t => some t.bare

/-- A tree that mirrors a value is the one that would be built for it. -/
theorem rebuilt_eq {v : Value} {tree : Option WatchTree} (hwhole : m.Whole)
    (hv : ∀ q, v = .object q → q < m.objects.size ∧ m.Within maxDepth q)
    (hroot : tree.map (·.object) = v.object?) (hmirrors : ∀ t ∈ tree, t.Mirrors m) :
    m.rebuilt id v = .ok (tree.map (·.bare)) := by
  unfold rebuilt
  cases hq : v.object? with
  | none =>
    rw [hq, Option.map_eq_none_iff] at hroot
    rw [hroot]
    rfl
  | some q =>
    obtain rfl := Value.object?_eq_some_iff.1 hq
    rw [hq] at hroot
    obtain ⟨t, rfl, hobject⟩ := Option.map_eq_some_iff.1 hroot
    obtain ⟨hexists, hwithin⟩ := hv q rfl
    have hensure := rewatches_ensureBinding m q
    obtain ⟨t', m₁, hattach, _, hobject', hmirrors'⟩ := attach_of_within id
      (hwhole.rewatches hensure) (isBound_ensureBinding_self hexists)
      (hwithin.of_grown hwhole (fun p _ => hensure.store p) hexists)
    have hsame : t'.bare = t.bare := by
      refine (mirrors_congr (fun p => (hensure.store p).symm) hmirrors').bare_eq
        (hmirrors t rfl) (hobject'.trans hobject.symm)
    dsimp only
    rw [hattach]
    show Except.ok (some t'.bare) = Except.ok (some t.bare)
    rw [hsame]

end Model

end LiveScope
