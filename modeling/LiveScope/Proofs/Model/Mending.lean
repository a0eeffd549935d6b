import LiveScope.Proofs.Model.Attaching

/-!
# Moving and mending deep watches

To move a deep watch to another value, or to mend its tree, gives up some of the watched nodes and
adds others. `Model.Moved` and `Model.Mended` say what either comes to, case by case, also where an
object is refused. What all of them have in common is what they do to the watchers
(`Model.Swapped`), and where nothing is refused, to the nodes of the tree (`Model.Regrown`).
-/

namespace LiveScope.Model

variable {m m' m'' : Model} {id : DeepId}

/-- The nodes of a deep watch, as objects with the numbers of their watchers. -/
def watched (m : Model) (d : DeepId) : List (ObjectId × Nat) := (m.tree? d).elim [] (·.watchers)

/-- `m'` lacks the watchers `gone` of `m`, has new ones for `id` where `added` says, and else
differs at most in the trees, in which objects have a binding and in what is held. -/
structure Swapped (id : DeepId) (gone added : List (ObjectId × Nat)) (m m' : Model) : Prop where
  /-- Nothing else is different but trees, which objects have a binding and what is held. -/
  rewatches : m.Rewatches m'
  /-- Nothing is added twice. -/
  nodup : added.Nodup
  /-- The numbers of what is added are new. -/
  fresh : ∀ x ∈ added, m.lastIdOf x.1 < x.2 ∧ x.2 ≤ m'.lastIdOf x.1
  /-- The new watchers stand behind those that are left, in the order of their numbers, one for each
  pair that is added. -/
  watchersOf : ∀ p, ∃ new,
    m'.watchersOf p = (m.watchersOf p).filter (fun x => (p, x.seq) ∉ gone) ++ new ∧
      new.Pairwise (·.seq < ·.seq) ∧ ∀ x, x ∈ new ↔ x.watch = .mend id ∧ (p, x.seq) ∈ added

namespace Swapped

variable {gone gone' added : List (ObjectId × Nat)}

/-- Nothing is given up or added. -/
theorem refl (id : DeepId) (m : Model) : Swapped id [] [] m m where
  rewatches := Rewatches.steady.refl m
  nodup := .nil
  fresh _ h := by cases h
  watchersOf p := by
    refine ⟨[], ?_, .nil, fun x => ?_⟩
    · simp
    · simp

/-- The trees do not matter. -/
theorem setTree (h : Swapped id gone added m m') (d : DeepId) (tree : Option WatchTree) :
    Swapped id gone added m (m'.setTree d tree) where
  rewatches := Rewatches.steady.trans h.rewatches (rewatches_setTree m' d tree)
  nodup := h.nodup
  fresh := h.fresh
  watchersOf := h.watchersOf

/-- One more watcher is given up. -/
theorem unwatch (h : Swapped id gone [] m m') (o : ObjectId) (seq : Nat) :
    Swapped id (gone ++ [(o, seq)]) [] m (m'.unwatch o seq).2 where
  rewatches := Rewatches.steady.trans h.rewatches (rewatches_unwatch m' o seq)
  nodup := .nil
  fresh _ h := by cases h
  watchersOf p := by
    obtain ⟨new, hnew, _, hmem⟩ := h.watchersOf p
    have hnil : new = [] := List.eq_nil_iff_forall_not_mem.2 fun x hx => by cases ((hmem x).1 hx).2
    refine ⟨[], ?_, .nil, fun x => by simp⟩
    rw [watchersOf_unwatch, hnew, hnil, List.append_nil, List.append_nil, List.filter_filter]
    refine List.filter_congr fun x _ => ?_
    rw [Bool.eq_iff_iff]
    simp [and_comm]

/-- The watchers of a tree are given up. -/
theorem detach (h : Swapped id gone [] m m') (tree : WatchTree) :
    Swapped id (gone ++ tree.watchers) [] m (m'.detach tree) := by
  unfold Model.detach
  generalize tree.watchers = ws
  induction ws generalizing gone m' with
  | nil =>
    rw [List.append_nil]
    exact h
  | cons x ws ih =>
    have := ih (h.unwatch x.1 x.2)
    rw [List.append_assoc] at this
    exact this

/-- The watchers of several trees are given up. -/
theorem detachAll (h : Swapped id gone [] m m') (children : List (String × WatchTree)) :
    Swapped id (gone ++ children.flatMap (·.2.watchers)) [] m
      (children.foldl (fun m e => m.detach e.2) m') := by
  induction children generalizing gone m' with
  | nil =>
    rw [List.flatMap_nil, List.append_nil]
    exact h
  | cons e children ih =>
    have := ih (h.detach e.2)
    rw [List.append_assoc] at this
    exact this

/-- A watcher was there before and is not given up, or it is new. -/
theorem watcher_cases (h : Swapped id gone added m m') {p : ObjectId} {x : Watcher}
    (hx : x ∈ m'.watchersOf p) :
    x ∈ m.watchersOf p ∧ (p, x.seq) ∉ gone ∨ x.watch = .mend id ∧ (p, x.seq) ∈ added := by
  obtain ⟨new, hnew, _, hmem⟩ := h.watchersOf p
  rw [hnew] at hx
  rcases List.mem_append.1 hx with hx | hx
  · obtain ⟨hx, hkept⟩ := List.mem_filter.1 hx
    exact .inl ⟨hx, of_decide_eq_true hkept⟩
  · exact .inr ((hmem x).1 hx)

/-- After some watchers were given up others are added. -/
theorem grow (h : Swapped id gone [] m m') (hgrown : Grown id added m' m'') :
    Swapped id gone added m m'' where
  rewatches := Rewatches.steady.trans h.rewatches hgrown.rewatches
  nodup := hgrown.nodup
  fresh x hx := by
    have := h.rewatches.lastIdOf x.1
    have := hgrown.fresh x hx
    omega
  watchersOf p := by
    obtain ⟨new, hnew, _, hmem⟩ := h.watchersOf p
    have hnil : new = [] := List.eq_nil_iff_forall_not_mem.2 fun x hx => by cases ((hmem x).1 hx).2
    obtain ⟨new', hnew', hpair, hmem'⟩ := hgrown.watchersOf p
    refine ⟨new', ?_, hpair, hmem'⟩
    rw [hnew', hnew, hnil, List.append_nil]

end Swapped

/-! ## Trees that are taken down -/

/-- Changes of watchers leave the trees of deep watches as they are recorded. -/
theorem watches_deeps : Watches fun m m' : Model => m'.deeps = m.deeps where
  steady := ⟨fun _ => rfl, fun h h' => h'.trans h⟩
  ensureBinding _ _ := rfl
  watch _ _ _ := rfl
  unwatch _ _ _ := rfl

/-- Taking down a tree leaves the trees of deep watches as they are recorded. -/
theorem deeps_detach (m : Model) (tree : WatchTree) : (m.detach tree).deeps = m.deeps :=
  watches_deeps.detach m tree

/-- The trees are read off the deep watches. -/
theorem tree?_congr (h : m'.deeps = m.deeps) (d : DeepId) : m'.tree? d = m.tree? d := by
  unfold tree? deep?
  rw [h]

/-- Taking down the tree of a deep watch gives up all its nodes. -/
theorem swapped_dropTree (m : Model) (id : DeepId) :
    Swapped id (m.watched id) [] m (m.dropTree id) := by
  unfold dropTree watched
  cases m.tree? id with
  | none => exact (Swapped.refl id m).setTree id none
  | some tree => exact ((Swapped.refl id m).detach tree).setTree id none

/-- Taking down the tree of a deep watch leaves the other trees. -/
theorem tree?_dropTree (m : Model) (id d : DeepId) :
    (m.dropTree id).tree? d = if d = id then none else m.tree? d := by
  have hdeeps : ((m.tree? id).elim m m.detach).deeps = m.deeps := by
    cases m.tree? id with
    | none => rfl
    | some tree => exact deeps_detach m tree
  unfold dropTree
  rw [tree?_setTree, tree?_congr hdeeps]
  split
  · cases ((m.tree? id).elim m m.detach).deep? d <;> rfl
  · rfl

/-! ## Moving -/

/-- What becomes of a model when a deep watch is moved to a value. -/
inductive Moved (id : DeepId) (v : Value) (m : Model) : Except Fault Unit → Model → Prop
  /-- The tree has the value at its root. -/
  | stays {t : WatchTree} (tree : m.tree? id = some t) (value : v = .object t.object) :
      Moved id v m (.ok ()) m
  /-- There is no object to watch any more. -/
  | dropped (value : v.object? = none) : Moved id v m (.ok ()) (m.dropTree id)
  /-- The object is refused. -/
  | refused {o : ObjectId} {fault : Fault} {m₁ : Model} (value : v = .object o)
      (attach : attach id maxDepth o ((m.dropTree id).ensureBinding o) = (.error fault, m₁)) :
      Moved id v m (.error fault) m₁
  /-- The tree of the object is built. -/
  | built {o : ObjectId} {t : WatchTree} {m₁ : Model} (value : v = .object o)
      (attach : attach id maxDepth o ((m.dropTree id).ensureBinding o) = (.ok t, m₁)) :
      Moved id v m (.ok ()) (m₁.setTree id (some t))

/-- Moving a deep watch comes to one of these. -/
theorem moved_of_retarget {v : Value} {res : Except Fault Unit} (h : retarget id v m = (res, m')) :
    Moved id v m res m' := by
  unfold retarget at h
  rw [Edit.bind_of_ok (e := get) rfl] at h
  split at h
  · rename_i o
    split at h
    · rename_i hsame
      obtain ⟨rfl, rfl⟩ := Prod.mk.inj h
      obtain ⟨t, ht, rfl⟩ := Option.map_eq_some_iff.1 hsame
      exact .stays ht rfl
    · rw [Edit.bind_of_ok (e := modify _) rfl, Edit.bind_of_ok (e := modify _) rfl] at h
      cases hattach : attach id maxDepth o ((m.dropTree id).ensureBinding o) with
      | mk r m₁ =>
        cases r with
        | error fault =>
          rw [Edit.bind_of_error hattach] at h
          obtain ⟨rfl, rfl⟩ := Prod.mk.inj h
          exact .refused rfl hattach
        | ok t =>
          rw [Edit.bind_of_ok hattach] at h
          obtain ⟨rfl, rfl⟩ := Prod.mk.inj h
          exact .built rfl hattach
  · rename_i hne
    obtain ⟨rfl, rfl⟩ := Prod.mk.inj h
    refine .dropped (Option.eq_none_iff_forall_ne_some.2 fun o ho => ?_)
    exact hne o (Value.object?_eq_some_iff.1 ho)

/-- The tree of an object is built after some watchers were given up. -/
theorem Swapped.attach_of_ok {gone : List (ObjectId × Nat)} {m₁ m₂ : Model} {levels : Nat}
    {o : ObjectId} {t : WatchTree} (h : Swapped id gone [] m m₁) (hwhole : m.Whole)
    (ho : o < m.objects.size) (hattach : attach id levels o (m₁.ensureBinding o) = (.ok t, m₂)) :
    Swapped id gone t.watchers m m₂ ∧ m₂.deeps = m₁.deeps ∧ t.object = o ∧ t.Mirrors m := by
  have hensure := grown_ensureBinding id m₁ o
  have hrewatches := Rewatches.steady.trans h.rewatches hensure.rewatches
  have hbound : (m₁.ensureBinding o).isBound o = true := by
    refine isBound_ensureBinding_self ?_
    rw [h.rewatches.size]
    exact ho
  obtain ⟨hgrown, hobject, hmirrors⟩ :=
    Model.attach_of_ok (hwhole.rewatches hrewatches) hbound hattach
  exact ⟨h.grow (hensure.trans hgrown), hgrown.deeps, hobject,
    mirrors_congr (fun q => (hrewatches.store q).symm) hmirrors⟩

/-- A deep watch that is moved to another value keeps its tree if that has the value at its root;
else the tree is taken down, and built again if the value is an object. -/
theorem retarget_of_ok {v : Value} (hwhole : m.Whole) (hdeep : (m.deep? id).isSome = true)
    (hv : ∀ o, v = .object o → o < m.objects.size) (h : retarget id v m = (.ok (), m')) :
    (m' = m ∧ ∃ t, m.tree? id = some t ∧ v = .object t.object) ∨
      (∀ d, d ≠ id → m'.tree? d = m.tree? d) ∧
        ((v.object? = none ∧ m'.tree? id = none ∧ Swapped id (m.watched id) [] m m') ∨
          ∃ t, m'.tree? id = some t ∧ v = .object t.object ∧ t.Mirrors m ∧
            Swapped id (m.watched id) t.watchers m m') := by
  have hdrop := swapped_dropTree m id
  cases moved_of_retarget h with
  | stays ht hvalue => exact .inl ⟨rfl, _, ht, hvalue⟩
  | dropped hvalue =>
    refine .inr ⟨fun d hd => (tree?_dropTree m id d).trans (if_neg hd), .inl ⟨hvalue, ?_, hdrop⟩⟩
    exact (tree?_dropTree m id id).trans (if_pos rfl)
  | @built o t m₁ hvalue hattach =>
    obtain ⟨hswapped, hdeeps, hobject, hmirrors⟩ := hdrop.attach_of_ok hwhole (hv o hvalue) hattach
    refine .inr ⟨fun d hd => ?_, .inr ⟨t, ?_, by rw [hvalue, hobject], hmirrors,
      hswapped.setTree id (some t)⟩⟩
    · rw [tree?_setTree, if_neg hd, tree?_congr hdeeps, tree?_dropTree, if_neg hd]
    · refine tree?_setTree_self ?_ (some t)
      rw [hswapped.rewatches.isSome_deep?]
      exact hdeep

/-- The only way to fail to move a deep watch is that an object lies too deep. -/
theorem retarget_error {v : Value} {fault : Fault} (h : retarget id v m = (.error fault, m')) :
    fault = .nestedObjects := by
  cases moved_of_retarget h with
  | refused _ hattach => exact attach_error hattach

/-! ## Mending -/

variable {o : ObjectId} {w : Nat} {key : String} {v : Value}

/-- There is nothing to mend if the watcher belongs to no tree that is alive. -/
theorem mend_of_not_found
    (h : m.isDeepAlive id = true → (m.tree? id).bind (·.find? o w 1) = none) :
    mend id o w key v m = (.ok (), m) := by
  unfold mend
  rw [Edit.bind_of_ok (e := get) rfl]
  by_cases halive : m.isDeepAlive id = true
  · rw [halive]
    simp only [Bool.not_true, Bool.false_eq_true, if_false]
    rw [h halive]
    rfl
  · rw [Bool.eq_false_iff.2 halive]
    rfl

/-- Takes a tree away from below a node: what is past the end of a list, or what is at a key. -/
def cut (m : Model) (id : DeepId) (t : WatchTree) (o : ObjectId) (w : Nat)
    (keep : List (String × WatchTree) → List (String × WatchTree))
    (gone : List (String × WatchTree)) : Model :=
  gone.foldl (fun m e => m.detach e.2) (m.setTree id (some (t.modify o w keep)))

/-- Taking trees away gives up their watchers. -/
theorem swapped_cut (m : Model) (id : DeepId) (t : WatchTree) (o : ObjectId) (w : Nat)
    (keep : List (String × WatchTree) → List (String × WatchTree))
    (gone : List (String × WatchTree)) :
    Swapped id (gone.flatMap (·.2.watchers)) [] m (m.cut id t o w keep gone) :=
  ((Swapped.refl id m).setTree id _).detachAll gone

/-- Taking trees away from below a node changes one tree. -/
theorem tree?_cut {t : WatchTree} (ht : m.tree? id = some t) (o : ObjectId) (w : Nat)
    (keep : List (String × WatchTree) → List (String × WatchTree))
    (gone : List (String × WatchTree)) (d : DeepId) :
    (m.cut id t o w keep gone).tree? d =
      if d = id then some (t.modify o w keep) else m.tree? d := by
  have hdeeps : (m.cut id t o w keep gone).deeps =
      (m.setTree id (some (t.modify o w keep))).deeps :=
    watches_deeps.detachAll _ gone
  rw [tree?_congr hdeeps, tree?_setTree]
  split
  · rename_i hd
    subst hd
    obtain ⟨deep, hdeep, _⟩ := Option.bind_eq_some_iff.1 ht
    rw [hdeep]
    rfl
  · rfl

/-- Taking away what is at a key below a node, and putting a tree there, changes one tree. -/
theorem tree?_replaced {t : WatchTree} {m₁ : Model} {gone : List (String × WatchTree)}
    (ht : m.tree? id = some t)
    (hdeeps : m₁.deeps = (m.cut id t o w (·.filter (·.1 != key)) gone).deeps) (new : WatchTree)
    (d : DeepId) :
    (m₁.setTree id ((m₁.tree? id).map (·.modify o w (Dict.insertEntry key new)))).tree? d =
      if d = id then some (t.modify o w fun children =>
        Dict.insertEntry key new (children.filter (·.1 != key))) else m.tree? d := by
  have htrees (d : DeepId) : m₁.tree? d =
      if d = id then some (t.modify o w (·.filter (·.1 != key))) else m.tree? d :=
    (tree?_congr hdeeps d).trans (tree?_cut ht o w _ _ d)
  split
  · rename_i hd
    rw [hd, tree?_modifyTree ((htrees id).trans (if_pos rfl)), WatchTree.modify_modify]
  · rename_i hd
    rw [tree?_setTree, if_neg hd, htrees, if_neg hd]

/-- What is at a key of a node, if something is. -/
def atKey (key : String) (children : List (String × WatchTree)) : List (String × WatchTree) :=
  ((children.lookup key).map (key, ·)).toList

/-- The node of the watcher is mended: if the length of a list changes, what is past its end is cut
off; else what is at the key is replaced, unless it stays the same. -/
theorem mend_eq {t node : WatchTree} {depth : Nat} (halive : m.isDeepAlive id = true)
    (ht : m.tree? id = some t) (hfind : t.find? o w 1 = some (depth, node)) :
    mend id o w key v m =
      if key = Store.lengthKey ∧ (m.store o).isList then
        (.ok (), m.cut id t o w (fun children => (pastEnd (m.store o).size children).2)
          (pastEnd (m.store o).size node.children).1)
      else if (node.children.lookup key).isSome ∧
          (node.children.lookup key).map (·.object) = v.object? then (.ok (), m)
      else
        let m₁ := m.cut id t o w (·.filter (·.1 != key)) (atKey key node.children)
        match v.object? with
        | none => (.ok (), m₁)
        | some child =>
          match attach id (maxDepth - depth) child (m₁.ensureBinding child) with
          | (.error fault, m₂) => (.error fault, m₂)
          | (.ok tree, m₂) => (.ok (), m₂.setTree id
              ((m₂.tree? id).map (·.modify o w (Dict.insertEntry key tree)))) := by
  unfold mend
  rw [Edit.bind_of_ok (e := get) rfl, halive, ht]
  simp only [Bool.not_true, Bool.false_eq_true, if_false, Option.bind_some]
  rw [hfind]
  dsimp only
  split
  · rw [Edit.bind_of_ok (e := modify _) rfl]
    show (Except.ok (), _) = _
    rw [ht]
    rfl
  · split
    · rfl
    · rw [Edit.bind_of_ok (e := modify _) rfl, ht, Edit.bind_of_ok (e := modify _) rfl]
      -- What is taken down at the key is one tree or none.
      have hcut : (node.children.lookup key).elim
          (m.setTree id (some (t.modify o w (·.filter (·.1 != key)))))
          (m.setTree id (some (t.modify o w (·.filter (·.1 != key))))).detach =
            m.cut id t o w (·.filter (·.1 != key)) (atKey key node.children) := by
        unfold cut atKey
        cases node.children.lookup key <;> rfl
      cases v.object? with
      | none =>
        dsimp only
        rw [← hcut]
        rfl
      | some child =>
        dsimp only
        rw [Edit.bind_of_ok (e := modify _) rfl, ← hcut]
        dsimp only [Option.map_some]
        split
        · rename_i hattach
          exact Edit.bind_of_error hattach
        · rename_i hattach
          exact Edit.bind_of_ok hattach

/-- What becomes of a model when the node of a watcher is mended. -/
inductive Mended (id : DeepId) (o : ObjectId) (w : Nat) (key : String) (v : Value) (m : Model) :
    Except Fault Unit → Model → Prop
  /-- There is no such node. -/
  | absent (none : m.isDeepAlive id = true → (m.tree? id).bind (·.find? o w 1) = none) :
      Mended id o w key v m (.ok ()) m
  /-- What is past the end of a list is cut off. -/
  | shortened {t node : WatchTree} {depth : Nat} (tree : m.tree? id = some t)
      (found : t.find? o w 1 = some (depth, node))
      (length : key = Store.lengthKey ∧ (m.store o).isList) :
      Mended id o w key v m (.ok ())
        (m.cut id t o w (fun children => (pastEnd (m.store o).size children).2)
          (pastEnd (m.store o).size node.children).1)
  /-- The object at the key stays the same. -/
  | unchanged {t node : WatchTree} {depth : Nat} (tree : m.tree? id = some t)
      (found : t.find? o w 1 = some (depth, node))
      (length : ¬ (key = Store.lengthKey ∧ (m.store o).isList))
      (same : (node.children.lookup key).map (·.object) = v.object?) :
      Mended id o w key v m (.ok ()) m
  /-- There is no object at the key any more. -/
  | removed {t node : WatchTree} {depth : Nat} (tree : m.tree? id = some t)
      (found : t.find? o w 1 = some (depth, node))
      (length : ¬ (key = Store.lengthKey ∧ (m.store o).isList)) (value : v.object? = none) :
      Mended id o w key v m (.ok ())
        (m.cut id t o w (·.filter (·.1 != key)) (atKey key node.children))
  /-- The new object at the key is refused. -/
  | refused {t node : WatchTree} {depth : Nat} {child : ObjectId} {fault : Fault} {m₁ : Model}
      (tree : m.tree? id = some t) (found : t.find? o w 1 = some (depth, node))
      (length : ¬ (key = Store.lengthKey ∧ (m.store o).isList)) (value : v = .object child)
      (attach : attach id (maxDepth - depth) child
        ((m.cut id t o w (·.filter (·.1 != key)) (atKey key node.children)).ensureBinding child) =
          (.error fault, m₁)) :
      Mended id o w key v m (.error fault) m₁
  /-- The tree of the new object is put at the key. -/
  | replaced {t node new : WatchTree} {depth : Nat} {child : ObjectId} {m₁ : Model}
      (tree : m.tree? id = some t) (found : t.find? o w 1 = some (depth, node))
      (length : ¬ (key = Store.lengthKey ∧ (m.store o).isList)) (value : v = .object child)
      (attach : attach id (maxDepth - depth) child
        ((m.cut id t o w (·.filter (·.1 != key)) (atKey key node.children)).ensureBinding child) =
          (.ok new, m₁)) :
      Mended id o w key v m (.ok ())
        (m₁.setTree id ((m₁.tree? id).map (·.modify o w (Dict.insertEntry key new))))

/-- Mending comes to one of these. -/
theorem mended_of_mend {res : Except Fault Unit} (h : mend id o w key v m = (res, m')) :
    Mended id o w key v m res m' := by
  by_cases hnone : m.isDeepAlive id = true → (m.tree? id).bind (·.find? o w 1) = none
  · rw [mend_of_not_found hnone] at h
    obtain ⟨rfl, rfl⟩ := Prod.mk.inj h
    exact .absent hnone
  push Not at hnone
  obtain ⟨halive, hfound⟩ := hnone
  obtain ⟨⟨depth, node⟩, hfound⟩ := Option.ne_none_iff_exists'.1 hfound
  obtain ⟨t, ht, hfind⟩ := Option.bind_eq_some_iff.1 hfound
  rw [mend_eq halive ht hfind] at h
  split at h
  · rename_i hlength
    obtain ⟨rfl, rfl⟩ := Prod.mk.inj h
    exact .shortened ht hfind hlength
  rename_i hlength
  split at h
  · rename_i hsame
    obtain ⟨rfl, rfl⟩ := Prod.mk.inj h
    exact .unchanged ht hfind hlength hsame.2
  dsimp only at h
  split at h
  · rename_i hvalue
    obtain ⟨rfl, rfl⟩ := Prod.mk.inj h
    exact .removed ht hfind hlength hvalue
  · rename_i child hvalue
    have hobject := Value.object?_eq_some_iff.1 hvalue
    split at h
    · rename_i hattach
      obtain ⟨rfl, rfl⟩ := Prod.mk.inj h
      exact .refused ht hfind hlength hobject hattach
    · rename_i hattach
      obtain ⟨rfl, rfl⟩ := Prod.mk.inj h
      exact .replaced ht hfind hlength hobject hattach

/-! ## What moving and mending have in common -/

/-- `m'` has another tree for `id` than `m`: the nodes `out` are in both, `gone` were given up and
`added` are new. -/
structure Regrown (id : DeepId) (out gone added : List (ObjectId × Nat)) (m m' : Model) :
    Prop where
  /-- The watchers differ in what was given up and what is new. -/
  swapped : Swapped id gone added m m'
  /-- The trees of other deep watches are the same. -/
  others : ∀ d, d ≠ id → m'.tree? d = m.tree? d
  /-- The nodes were those in both and those that were given up. -/
  before : (m.watched id).Perm (out ++ gone)
  /-- They are those in both and the new ones. -/
  after : (m'.watched id).Perm (out ++ added)
  /-- No key occurs twice below a node of the tree. -/
  keyed : ∀ t, m'.tree? id = some t → t.Keyed

/-- The other deep watches have the nodes that they had. -/
theorem Regrown.watched_of_ne {out gone added : List (ObjectId × Nat)} {d : DeepId}
    (h : Regrown id out gone added m m') (hd : d ≠ id) : m'.watched d = m.watched d := by
  unfold watched
  rw [h.others d hd]

/-- The nodes of a deep watch are those of its tree. -/
theorem watched_of_tree? {t : WatchTree} (h : m.tree? id = some t) :
    m.watched id = t.watchers := by
  unfold watched
  rw [h]
  rfl

/-- A deep watch that is moved gives up all its nodes or stays. -/
theorem regrown_retarget {v : Value} (hwhole : m.Whole) (hdeep : (m.deep? id).isSome = true)
    (hv : ∀ o, v = .object o → o < m.objects.size) (h : retarget id v m = (.ok (), m')) :
    m' = m ∨ ∃ gone added, Regrown id [] gone added m m' := by
  rcases retarget_of_ok hwhole hdeep hv h with ⟨rfl, _⟩ |
    ⟨hothers, ⟨_, htree, hswapped⟩ | ⟨t, htree, _, hmirrors, hswapped⟩⟩
  · exact .inl rfl
  · refine .inr ⟨_, _, hswapped, hothers, .refl _, ?_, fun t ht => ?_⟩
    · unfold watched
      rw [htree]
      exact .refl _
    · rw [htree] at ht
      cases ht
  · refine .inr ⟨_, _, hswapped, hothers, .refl _, ?_, fun t' ht' => ?_⟩
    · rw [watched_of_tree? htree]
      exact .refl _
    · rw [htree] at ht'
      obtain rfl := Option.some.inj ht'
      exact keyed_of_mirrors hmirrors

/-- What is at a key is among the trees with different keys once, and the others have other keys. -/
theorem perm_atKey {children : List (String × WatchTree)} (h : (children.map (·.1)).Nodup)
    (key : String) : children.Perm (children.filter (·.1 != key) ++ atKey key children) := by
  induction children with
  | nil => exact .refl _
  | cons e children ih =>
    obtain ⟨k, t⟩ := e
    obtain ⟨hnew, hrest⟩ := List.nodup_cons.1 h
    unfold atKey at *
    rw [Dict.lookup_cons_ite]
    by_cases hk : key = k
    · subst hk
      have hothers : children.filter (·.1 != key) = children := by
        refine List.filter_eq_self.2 fun e he => ?_
        have hne : e.1 ≠ key := fun heq => hnew (List.mem_map.2 ⟨e, he, heq⟩)
        simpa using hne
      rw [if_pos rfl, List.filter_cons_of_neg (by simp), hothers]
      show ([(key, t)] ++ children).Perm _
      exact List.perm_append_comm
    · rw [if_neg hk, List.filter_cons_of_pos (by simpa using Ne.symm hk)]
      exact (ih hrest).cons (k, t)

/-- What is past the end of a list, and what is not, are all the trees. -/
theorem perm_pastEnd (length : Nat) (children : List (String × WatchTree)) :
    children.Perm ((pastEnd length children).2 ++ (pastEnd length children).1) := by
  unfold pastEnd
  rw [List.partition_eq_filter_filter]
  exact (List.perm_append_comm.trans (List.filter_append_perm _ _)).symm

/-- A tree regrows when the children of one node are changed: `stay` stay, `gone` are given up and
`new` are new. -/
theorem regrown_of_modify {t node : WatchTree} {depth : Nat}
    {f : List (String × WatchTree) → List (String × WatchTree)}
    {stay gone new : List (String × WatchTree)} (ht : m.tree? id = some t)
    (hdistinct : t.watchers.Nodup) (hfind : t.find? o w 1 = some (depth, node))
    (hswapped : Swapped id (gone.flatMap (·.2.watchers)) (new.flatMap (·.2.watchers)) m m')
    (htrees : ∀ d, m'.tree? d = if d = id then some (t.modify o w f) else m.tree? d)
    (hbefore : node.children.Perm (stay ++ gone)) (hafter : (f node.children).Perm (stay ++ new))
    (hkeyed : (t.modify o w f).Keyed) :
    ∃ out, Regrown id out (gone.flatMap (·.2.watchers)) (new.flatMap (·.2.watchers)) m m' := by
  obtain ⟨out, hout, hmodify⟩ := WatchTree.exists_outside hdistinct hfind
  have htree : m'.tree? id = some (t.modify o w f) := (htrees id).trans (if_pos rfl)
  refine ⟨out ++ stay.flatMap (·.2.watchers), hswapped, fun d hd => ?_, ?_, ?_, fun t' ht' => ?_⟩
  · rw [htrees, if_neg hd]
  · rw [watched_of_tree? ht, List.append_assoc, ← List.flatMap_append]
    exact hout.trans ((hbefore.flatMap_right _).append_left out)
  · rw [watched_of_tree? htree, List.append_assoc, ← List.flatMap_append]
    exact (hmodify f).trans ((hafter.flatMap_right _).append_left out)
  · rw [htree] at ht'
    obtain rfl := Option.some.inj ht'
    exact hkeyed

/-- A tree from which what is at a key of a node is taken gives that up. -/
theorem regrown_cut {t node : WatchTree} {depth : Nat} (ht : m.tree? id = some t)
    (hdistinct : t.watchers.Nodup) (hkeyed : t.Keyed) (hfind : t.find? o w 1 = some (depth, node))
    (key : String) :
    ∃ out, Regrown id out ((atKey key node.children).flatMap (·.2.watchers)) [] m
      (m.cut id t o w (·.filter (·.1 != key)) (atKey key node.children)) :=
  regrown_of_modify ht hdistinct hfind (swapped_cut m id t o w _ _) (tree?_cut ht o w _ _)
    (perm_atKey (hkeyed.keys_of_find? hfind) key) (.of_eq (List.append_nil _).symm)
    (hkeyed.modify hdistinct (fun _ hkeys => (List.filter_sublist.map _).nodup hkeys)
      fun _ _ he => .inl (List.mem_filter.1 he).1)

/-- A tree that is mended gives up some of its nodes or stays. -/
theorem regrown_mend (hwhole : m.Whole) (hv : ∀ q, v = .object q → q < m.objects.size)
    (hnodup : ∀ t, m.tree? id = some t → t.watchers.Nodup ∧ t.Keyed)
    (h : mend id o w key v m = (.ok (), m')) :
    m' = m ∨ ∃ out gone added, Regrown id out gone added m m' := by
  cases mended_of_mend h with
  | absent => exact .inl rfl
  | unchanged => exact .inl rfl
  | @shortened t node depth ht hfind =>
    obtain ⟨hdistinct, hkeyed⟩ := hnodup t ht
    -- Nothing is new below the node, and what stays there keeps its order.
    have hsub (children : List (String × WatchTree)) :
        (pastEnd (m.store o).size children).2.Sublist children := by
      unfold pastEnd
      rw [List.partition_eq_filter_filter]
      exact List.filter_sublist
    obtain ⟨out, hregrown⟩ := regrown_of_modify ht hdistinct hfind (swapped_cut m id t o w _ _)
      (tree?_cut ht o w _ _) (perm_pastEnd _ _) (.of_eq (List.append_nil _).symm)
      (hkeyed.modify hdistinct (fun children hkeys => ((hsub children).map _).nodup hkeys)
        fun children e he => .inl ((hsub children).subset he))
    exact .inr ⟨out, _, _, hregrown⟩
  | @removed t node depth ht hfind =>
    obtain ⟨hdistinct, hkeyed⟩ := hnodup t ht
    obtain ⟨out, hregrown⟩ := regrown_cut ht hdistinct hkeyed hfind key
    exact .inr ⟨out, _, _, hregrown⟩
  | @replaced t node new depth child m₁ ht hfind _ hvalue hattach =>
    obtain ⟨hdistinct, hkeyed⟩ := hnodup t ht
    obtain ⟨hswapped, hdeeps, _, hmirrors⟩ :=
      (swapped_cut m id t o w _ _).attach_of_ok hwhole (hv child hvalue) hattach
    -- The key is free for the new tree, so that putting it there replaces nothing.
    have hnew (children : List (String × WatchTree)) :
        key ∉ (children.filter (·.1 != key)).map (·.1) := by
      intro hmem
      obtain ⟨e, he, heq⟩ := List.mem_map.1 hmem
      have hne := (List.mem_filter.1 he).2
      simp [heq] at hne
    have hinsert (children : List (String × WatchTree)) :=
      Dict.insertEntry_perm new (hnew children)
    let put (children : List (String × WatchTree)) :=
      Dict.insertEntry key new (children.filter (·.1 != key))
    let m₂ := m₁.setTree id ((m₁.tree? id).map (·.modify o w (Dict.insertEntry key new)))
    have hswapped' : Swapped id ((atKey key node.children).flatMap (·.2.watchers))
        ([(key, new)].flatMap (·.2.watchers)) m m₂ := by
      rw [List.flatMap_singleton]
      exact hswapped.setTree id _
    have hkeyed' : (t.modify o w put).Keyed := by
      refine hkeyed.modify hdistinct (fun children hkeys => ?_) fun children e he => ?_
      · refine ((hinsert children).map (·.1)).nodup_iff.2 (List.nodup_cons.2 ⟨hnew children, ?_⟩)
        exact (List.filter_sublist.map _).nodup hkeys
      · rcases List.mem_cons.1 ((hinsert children).mem_iff.1 he) with rfl | he
        · exact .inr (keyed_of_mirrors hmirrors)
        · exact .inl (List.mem_filter.1 he).1
    obtain ⟨out, hregrown⟩ := regrown_of_modify ht hdistinct hfind hswapped'
      (tree?_replaced ht hdeeps new)
      (perm_atKey (hkeyed.keys_of_find? hfind) key)
      ((hinsert _).trans (List.perm_append_singleton _ _).symm) hkeyed'
    exact .inr ⟨out, _, _, hregrown⟩

end LiveScope.Model
