import LiveScope.Model.Deep
import Mathlib.Data.List.Nodup
import Mathlib.Data.List.Perm.Basic

/-!
# Trees of watched objects

The functions on trees that recurse over lists of children are put in terms of the usual functions
on lists, so that a property of trees is proved by `WatchTree.induct` alone. The main fact is
`WatchTree.exists_outside`: to change the children of one node changes the watchers below that node
and no others, as long as no two nodes share a watcher.
-/

namespace LiveScope.WatchTree

/-- What holds of a node if it holds of the trees below it holds of all trees. -/
theorem induct {P : WatchTree → Prop}
    (node : ∀ o w children, (∀ e ∈ children, P e.2) → P (.node o w children)) (t : WatchTree) :
    P t := by
  refine WatchTree.rec (motive_1 := P) (motive_2 := fun children => ∀ e ∈ children, P e.2)
    (motive_3 := fun e => P e.2) ?_ ?_ ?_ ?_ t
  · intro o w children h
    exact node o w children h
  · intro e he
    cases he
  · intro e children h ih e' he'
    rcases List.mem_cons.1 he' with rfl | he'
    · exact h
    · exact ih e' he'
  · intro _ _ h
    exact h

variable {o : ObjectId} {w : Nat} {f g : List (String × WatchTree) → List (String × WatchTree)}

/-- The watchers of several trees are those of each. -/
theorem watchersOfChildren_eq (children : List (String × WatchTree)) :
    watchersOfChildren children = children.flatMap (·.2.watchers) := by
  induction children with
  | nil => rfl
  | cons e children ih =>
    rw [List.flatMap_cons, ← ih]
    rfl

/-- A node of several trees is one of the first tree that has it. -/
theorem findInChildren?_eq (depth : Nat) (children : List (String × WatchTree)) :
    findInChildren? o w depth children = children.findSome? (·.2.find? o w depth) := by
  induction children with
  | nil => rfl
  | cons e children ih =>
    obtain ⟨key, t⟩ := e
    rw [List.findSome?_cons, ← ih, findInChildren?]
    cases t.find? o w depth <;> rfl

/-- Several trees are changed one by one. -/
theorem modifyChildren_eq (children : List (String × WatchTree)) :
    modifyChildren o w f children = children.map fun e => (e.1, e.2.modify o w f) := by
  induction children with
  | nil => rfl
  | cons e children ih =>
    rw [List.map_cons, ← ih]
    rfl

section Node

variable (o' : ObjectId) (w' : Nat) (children : List (String × WatchTree))

/-- The watchers of a node come before those below it. -/
theorem watchers_node :
    (node o' w' children).watchers = (o', w') :: children.flatMap (·.2.watchers) := by
  rw [watchers, watchersOfChildren_eq]

/-- A node is the root or one of the trees below it. -/
theorem find?_node (depth : Nat) :
    (node o' w' children).find? o w depth =
      if o' = o ∧ w' = w then some (depth, node o' w' children)
      else children.findSome? (·.2.find? o w (depth + 1)) := by
  rw [find?, findInChildren?_eq]

/-- A change of a node is one of the root or of the trees below it. -/
theorem modify_node :
    (node o' w' children).modify o w f =
      if o' = o ∧ w' = w then node o' w' (f children)
      else node o' w' (children.map fun e => (e.1, e.2.modify o w f)) := by
  rw [modify, modifyChildren_eq]

end Node

/-- The root is a node of its tree. -/
theorem root_mem_watchers (t : WatchTree) : (t.object, t.watcher) ∈ t.watchers := by
  obtain ⟨o, w, children⟩ := t
  rw [watchers_node]
  exact List.mem_cons_self

/-- A change of a node's children keeps the object of the root. -/
theorem object_modify (t : WatchTree) : (t.modify o w f).object = t.object := by
  obtain ⟨o', w', children⟩ := t
  rw [modify_node]
  split <;> rfl

/-- A tree without the node stays. -/
theorem modify_of_not_mem (t : WatchTree) (h : (o, w) ∉ t.watchers) : t.modify o w f = t := by
  induction t using induct with
  | node o' w' children ih =>
    rw [watchers_node, List.mem_cons, List.mem_flatMap] at h
    push Not at h
    obtain ⟨hroot, hbelow⟩ := h
    rw [modify_node, if_neg fun heq => hroot (by rw [heq.1, heq.2])]
    congr 1
    refine List.map_congr_left (g := id) (fun e he => ?_) |>.trans (List.map_id _)
    rw [ih e he (hbelow e he)]
    rfl

/-- Trees without the node stay. -/
theorem map_modify_of_not_mem {children : List (String × WatchTree)}
    (h : ∀ e ∈ children, (o, w) ∉ e.2.watchers) :
    (children.map fun e => (e.1, e.2.modify o w f)) = children := by
  refine (List.map_congr_left (g := id) fun e he => ?_).trans (List.map_id _)
  rw [modify_of_not_mem e.2 (h e he)]
  rfl

/-- Two changes of the children of one node are one. -/
theorem modify_modify (t : WatchTree) :
    (t.modify o w f).modify o w g = t.modify o w fun children => g (f children) := by
  induction t using induct with
  | node o' w' children ih =>
    rw [modify_node, modify_node]
    by_cases h : o' = o ∧ w' = w
    · rw [if_pos h, if_pos h, modify_node, if_pos h]
    · rw [if_neg h, if_neg h, modify_node, if_neg h, List.map_map]
      congr 1
      refine List.map_congr_left fun e he => ?_
      show (e.1, (e.2.modify o w f).modify o w g) = _
      rw [ih e he]

/-- A node that is found belongs to the watcher it was looked for. -/
theorem find?_spec {t : WatchTree} {depth depth' : Nat} {s : WatchTree}
    (h : t.find? o w depth = some (depth', s)) :
    (o, w) ∈ t.watchers ∧ s.object = o ∧ s.watcher = w := by
  induction t using induct generalizing depth with
  | node o' w' children ih =>
    rw [watchers_node]
    rw [find?_node] at h
    split at h
    · rename_i heq
      obtain ⟨rfl, rfl⟩ := heq
      obtain ⟨_, rfl⟩ := Prod.mk.inj (Option.some.inj h)
      exact ⟨List.mem_cons_self, rfl, rfl⟩
    · obtain ⟨e, he, hfind⟩ := List.exists_of_findSome?_eq_some h
      obtain ⟨hmem, hs⟩ := ih e he hfind
      exact ⟨List.mem_cons_of_mem _ (List.mem_flatMap.2 ⟨e, he, hmem⟩), hs⟩

/-- A node of a tree is found. -/
theorem exists_find? {t : WatchTree} (h : (o, w) ∈ t.watchers) (depth : Nat) :
    ∃ depth' s, t.find? o w depth = some (depth', s) := by
  induction t using induct generalizing depth with
  | node o' w' children ih =>
    rw [find?_node]
    by_cases heq : o' = o ∧ w' = w
    · rw [if_pos heq]
      exact ⟨_, _, rfl⟩
    · rw [if_neg heq]
      rw [watchers_node, List.mem_cons, List.mem_flatMap] at h
      obtain ⟨e, he, hmem⟩ := h.resolve_left fun h => heq (by simpa [eq_comm] using h)
      obtain ⟨depth', s, hfind⟩ := ih e he hmem (depth + 1)
      have hsome : (children.findSome? (·.2.find? o w (depth + 1))).isSome = true := by
        rw [List.findSome?_isSome_iff]
        exact ⟨e, he, by rw [hfind]; rfl⟩
      obtain ⟨⟨depth'', s'⟩, hfound⟩ := Option.isSome_iff_exists.1 hsome
      exact ⟨depth'', s', hfound⟩

/-- The watchers below a node that is found are watchers of the tree. -/
theorem mem_watchers_of_find? {t : WatchTree} {depth depth' : Nat} {s : WatchTree}
    (h : t.find? o w depth = some (depth', s)) : ∀ x ∈ s.watchers, x ∈ t.watchers := by
  induction t using induct generalizing depth with
  | node o' w' children ih =>
    rw [find?_node] at h
    split at h
    · obtain ⟨_, rfl⟩ := Prod.mk.inj (Option.some.inj h)
      exact fun _ hx => hx
    · obtain ⟨e, he, hfind⟩ := List.exists_of_findSome?_eq_some h
      intro x hx
      rw [watchers_node]
      exact List.mem_cons_of_mem _ (List.mem_flatMap.2 ⟨e, he, ih e he hfind x hx⟩)

/-- What is so of all watchers of a tree stays so, if it is so of those that a change puts below a
node. -/
theorem forall_watchers_modify {P : ObjectId × Nat → Prop} {t : WatchTree}
    (h : ∀ x ∈ t.watchers, P x)
    (hf : ∀ children, (∀ e ∈ children, ∀ x ∈ e.2.watchers, P x) →
      ∀ e ∈ f children, ∀ x ∈ e.2.watchers, P x) :
    ∀ x ∈ (t.modify o w f).watchers, P x := by
  induction t using induct with
  | node o' w' children ih =>
    rw [watchers_node] at h
    have hbelow : ∀ e ∈ children, ∀ x ∈ e.2.watchers, P x := fun e he x hx =>
      h x (List.mem_cons_of_mem _ (List.mem_flatMap.2 ⟨e, he, hx⟩))
    have hnode {children' : List (String × WatchTree)}
        (h' : ∀ e ∈ children', ∀ x ∈ e.2.watchers, P x) :
        ∀ x ∈ (node o' w' children').watchers, P x := by
      intro x hx
      rw [watchers_node] at hx
      rcases List.mem_cons.1 hx with rfl | hx
      · exact h _ List.mem_cons_self
      · obtain ⟨e, he, hx⟩ := List.mem_flatMap.1 hx
        exact h' e he x hx
    rw [modify_node]
    split
    · exact hnode (hf children hbelow)
    · refine hnode fun e he => ?_
      obtain ⟨e', he', rfl⟩ := List.mem_map.1 he
      exact ih e' he' (hbelow e' he')

/-- To change the children of one node changes the watchers below it, and no others, if no two
nodes have one watcher. -/
theorem exists_outside {t : WatchTree} (hnodup : t.watchers.Nodup) {depth depth' : Nat}
    {s : WatchTree} (h : t.find? o w depth = some (depth', s)) :
    ∃ out, t.watchers.Perm (out ++ s.children.flatMap (·.2.watchers)) ∧
      ∀ f, (t.modify o w f).watchers.Perm (out ++ (f s.children).flatMap (·.2.watchers)) := by
  induction t using induct generalizing depth with
  | node o' w' children ih =>
    rw [watchers_node] at hnodup
    obtain ⟨hroot, hbelow⟩ := List.nodup_cons.1 hnodup
    rw [find?_node] at h
    split at h
    · rename_i heq
      obtain ⟨_, rfl⟩ := Prod.mk.inj (Option.some.inj h)
      refine ⟨[(o', w')], ?_, fun f => ?_⟩
      · rw [watchers_node]
        exact .refl _
      · rw [modify_node, if_pos heq, watchers_node]
        exact .refl _
    · rename_i hne
      obtain ⟨pre, e, post, rfl, hfind, hpre⟩ := List.findSome?_eq_some_iff.1 h
      rw [List.flatMap_append, List.flatMap_cons] at hbelow
      obtain ⟨_, hbelow, hapart⟩ := List.nodup_append.1 hbelow
      obtain ⟨he, _, hapart'⟩ := List.nodup_append.1 hbelow
      obtain ⟨out, hout, hmodify⟩ := ih e (List.mem_append_right _ List.mem_cons_self) he hfind
      have hmem := (find?_spec hfind).1
      -- The trees beside the one with the node do not have it.
      have hleft : ∀ e' ∈ pre, (o, w) ∉ e'.2.watchers := fun e' he' h =>
        hapart _ (List.mem_flatMap.2 ⟨e', he', h⟩) _ (List.mem_append_left _ hmem) rfl
      have hright : ∀ e' ∈ post, (o, w) ∉ e'.2.watchers := fun e' he' h =>
        hapart' _ hmem _ (List.mem_flatMap.2 ⟨e', he', h⟩) rfl
      have hassemble {ts below : List (ObjectId × Nat)} (hts : ts.Perm (out ++ below)) :
          ((o', w') :: (pre.flatMap (·.2.watchers) ++ (ts ++ post.flatMap (·.2.watchers)))).Perm
            ((o', w') :: (pre.flatMap (·.2.watchers) ++ post.flatMap (·.2.watchers) ++ out) ++
              below) := by
        rw [List.perm_iff_count]
        intro x
        have hcount := hts.count_eq x
        simp only [List.count_append, List.count_cons, List.cons_append] at hcount ⊢
        omega
      refine ⟨(o', w') :: (pre.flatMap (·.2.watchers) ++ post.flatMap (·.2.watchers) ++ out), ?_,
        fun f => ?_⟩
      · rw [watchers_node, List.flatMap_append, List.flatMap_cons]
        exact hassemble hout
      · rw [modify_node, if_neg hne, watchers_node, List.map_append, List.map_cons,
          map_modify_of_not_mem hleft, map_modify_of_not_mem hright, List.flatMap_append,
          List.flatMap_cons]
        exact hassemble (hmodify f)

/-! ## What holds of every node -/

/-- The keys and objects of several trees. -/
def labels (children : List (String × WatchTree)) : List (String × ObjectId) :=
  children.map fun e => (e.1, e.2.object)

/-- Whether `P` holds of the object, the watcher and the labels below it of every node. -/
inductive Every (P : ObjectId → Nat → List (String × ObjectId) → Prop) : WatchTree → Prop
  | node {o : ObjectId} {w : Nat} {children : List (String × WatchTree)}
      (root : P o w (labels children)) (below : ∀ e ∈ children, Every P e.2) :
      Every P (.node o w children)

/-- Whether the keys below every node are different from each other. -/
def Keyed (t : WatchTree) : Prop := t.Every fun _ _ labels => (labels.map (·.1)).Nodup

/-- A change of a node's children is no change of the labels above it. -/
theorem labels_map_modify (children : List (String × WatchTree)) :
    labels (children.map fun e => (e.1, e.2.modify o w f)) = labels children := by
  unfold labels
  rw [List.map_map]
  refine List.map_congr_left fun e _ => ?_
  show (e.1, (e.2.modify o w f).object) = _
  rw [object_modify]

/-- The trees below a node have watchers of their own. -/
theorem nodup_below {o' : ObjectId} {w' : Nat} {children : List (String × WatchTree)}
    (h : (node o' w' children).watchers.Nodup) :
    ∀ e ∈ children, e.2.watchers.Nodup ∧ (o', w') ∉ e.2.watchers := by
  intro e he
  rw [watchers_node] at h
  obtain ⟨hroot, hbelow⟩ := List.nodup_cons.1 h
  exact ⟨(List.nodup_flatMap.1 hbelow).1 e he, fun hmem =>
    hroot (List.mem_flatMap.2 ⟨e, he, hmem⟩)⟩

namespace Every

variable {P Q : ObjectId → Nat → List (String × ObjectId) → Prop} {t : WatchTree}

/-- What holds of the nodes of a tree holds of the root. -/
theorem root_spec (h : t.Every P) : P t.object t.watcher (labels t.children) := by
  cases h with
  | node root _ => exact root

/-- What holds of the nodes of a tree holds of the nodes below the root. -/
theorem below_spec (h : t.Every P) : ∀ e ∈ t.children, e.2.Every P := by
  cases h with
  | node _ below => exact below

/-- What follows at every node follows for the tree. -/
theorem imp (h : t.Every P)
    (hPQ : ∀ o w labels, (o, w) ∈ t.watchers → P o w labels → Q o w labels) :
    t.Every Q := by
  induction h with
  | node root below ih =>
    rw [watchers_node] at hPQ
    refine .node (hPQ _ _ _ List.mem_cons_self root) fun e he => ih e he fun o w labels hmem => ?_
    exact hPQ o w labels (List.mem_cons_of_mem _ (List.mem_flatMap.2 ⟨e, he, hmem⟩))

/-- What holds of the nodes of a tree holds of those below a node that is found. -/
theorem find? (h : t.Every P) {depth depth' : Nat} {s : WatchTree}
    (hfind : t.find? o w depth = some (depth', s)) : s.Every P := by
  induction h generalizing depth with
  | node root below ih =>
    rw [find?_node] at hfind
    split at hfind
    · obtain ⟨_, rfl⟩ := Prod.mk.inj (Option.some.inj hfind)
      exact .node root below
    · obtain ⟨e, he, hfind⟩ := List.exists_of_findSome?_eq_some hfind
      exact ih e he hfind

/-- What holds of the nodes of a tree after a change of the children of one: of that node because it
is the one changed, of the others as before. -/
theorem modify (h : t.Every P) (hnodup : t.watchers.Nodup)
    (hother : ∀ o' w' labels, (o', w') ≠ (o, w) → P o' w' labels → Q o' w' labels)
    (hnode : ∀ children, (WatchTree.node o w children).Every P →
      (WatchTree.node o w children).watchers.Nodup →
      Q o w (labels (f children)) ∧ ∀ e ∈ f children, e.2.Every Q) :
    (t.modify o w f).Every Q := by
  induction h with
  | node root below ih =>
    rename_i o' w' children
    rw [modify_node]
    by_cases heq : o' = o ∧ w' = w
    · rw [if_pos heq]
      obtain ⟨rfl, rfl⟩ := heq
      obtain ⟨hroot, hbelow⟩ := hnode children (.node root below) hnodup
      exact .node hroot hbelow
    · rw [if_neg heq]
      refine .node ?_ fun e he => ?_
      · rw [labels_map_modify]
        exact hother o' w' _ (fun h => heq (Prod.mk.inj h)) root
      · obtain ⟨e', he', rfl⟩ := List.mem_map.1 he
        exact ih e' he' (nodup_below hnodup e' he').1

end Every

/-- The labels have the keys of the trees. -/
theorem map_fst_labels (children : List (String × WatchTree)) :
    (labels children).map (·.1) = children.map (·.1) := by
  unfold labels
  rw [List.map_map]
  rfl

namespace Keyed

variable {t : WatchTree}

/-- The keys below a node that is found are different from each other. -/
theorem keys_of_find? (h : t.Keyed) {depth depth' : Nat} {s : WatchTree}
    (hfind : t.find? o w depth = some (depth', s)) : (s.children.map (·.1)).Nodup := by
  rw [← map_fst_labels]
  exact (Every.find? h hfind).root_spec

/-- A change of the children of one node that keeps their keys apart, where the new ones keep their
own apart. -/
theorem modify (h : t.Keyed) (hnodup : t.watchers.Nodup)
    (hkeys : ∀ children, (children.map (·.1)).Nodup → ((f children).map (·.1)).Nodup)
    (hbelow : ∀ children, ∀ e ∈ f children, e ∈ children ∨ e.2.Keyed) :
    (t.modify o w f).Keyed := by
  refine Every.modify h hnodup (fun _ _ _ _ h => h) fun children hchildren _ => ⟨?_, fun e he => ?_⟩
  · rw [map_fst_labels]
    refine hkeys children ?_
    rw [← map_fst_labels]
    exact hchildren.root_spec
  · rcases hbelow children e he with he | hkeyed
    · exact hchildren.below_spec e he
    · exact hkeyed

end Keyed

end LiveScope.WatchTree
