import LiveScope.Proofs.Model.Mending

/-!
# Trees whose nodes have other keys

Two trees of watched objects may have the same nodes, one below the other alike, and differ in the
keys of nodes and so in their order. A `Keying` says which keys stand for each other below a node,
and `WatchTree.Alike` that two trees are the same up to that. Such trees have the same watchers, a
node of one is found where the other has a node like it (`Alike.find?`), and they stay alike when
the children of such nodes are changed alike (`Alike.modify`).
-/

namespace LiveScope

/-- Which keys stand for each other below the node with an object and a watcher. -/
def Keying : Type := ObjectId → Nat → String → String → Prop

/-- Whether keys that stand for each other do so one by one and are the same index, and the length
stands for itself at most. -/
structure Keying.Coherent (K : Keying) : Prop where
  /-- They stand for each other one by one. -/
  one : ∀ {o w a b c d}, K o w a b → K o w c d → (a = c ↔ b = d)
  /-- They are the same index. -/
  index : ∀ {o w a b}, K o w a b → Store.index? a = Store.index? b
  /-- The length stands for itself at most. -/
  length : ∀ {o w a b}, K o w a b → (a = Store.lengthKey ↔ b = Store.lengthKey)

namespace WatchTree

variable {K : Keying} {o : ObjectId} {w : Nat} {t t' : WatchTree}
  {cs cs' : List (String × WatchTree)}

/-- Whether two trees are the same up to keys that stand for each other and the order of nodes. -/
inductive Alike (K : Keying) : WatchTree → WatchTree → Prop
  | node {o : ObjectId} {w : Nat} {cs cs' : List (String × WatchTree)}
      (pairs : List ((String × WatchTree) × (String × WatchTree)))
      (left : (pairs.map (·.1)).Perm cs) (right : (pairs.map (·.2)).Perm cs')
      (keys : ∀ p ∈ pairs, K o w p.1.1 p.2.1) (below : ∀ p ∈ pairs, Alike K p.1.2 p.2.2) :
      Alike K (.node o w cs) (.node o w cs')

/-- Whether the trees below two nodes are alike, at keys that stand for each other. -/
def Paired (K : Keying) (o : ObjectId) (w : Nat) (cs cs' : List (String × WatchTree)) : Prop :=
  ∃ pairs : List ((String × WatchTree) × (String × WatchTree)),
    (pairs.map (·.1)).Perm cs ∧ (pairs.map (·.2)).Perm cs' ∧
      ∀ p ∈ pairs, K o w p.1.1 p.2.1 ∧ Alike K p.1.2 p.2.2

namespace Paired

/-- Nodes are alike if the trees below them are. -/
theorem alike (h : Paired K o w cs cs') : Alike K (.node o w cs) (.node o w cs') := by
  obtain ⟨pairs, hleft, hright, hpairs⟩ := h
  exact .node pairs hleft hright (fun p hp => (hpairs p hp).1) fun p hp => (hpairs p hp).2

/-- There is a tree on the right for each tree on the left. -/
theorem exists_right (h : Paired K o w cs cs') {e : String × WatchTree} (he : e ∈ cs) :
    ∃ e' ∈ cs', K o w e.1 e'.1 ∧ Alike K e.2 e'.2 := by
  obtain ⟨pairs, hleft, hright, hpairs⟩ := h
  obtain ⟨p, hp, rfl⟩ := List.mem_map.1 (hleft.mem_iff.2 he)
  exact ⟨p.2, hright.mem_iff.1 (List.mem_map_of_mem hp), hpairs p hp⟩

/-- There is a tree on the left for each tree on the right. -/
theorem exists_left (h : Paired K o w cs cs') {e' : String × WatchTree} (he : e' ∈ cs') :
    ∃ e ∈ cs, K o w e.1 e'.1 ∧ Alike K e.2 e'.2 := by
  obtain ⟨pairs, hleft, hright, hpairs⟩ := h
  obtain ⟨p, hp, rfl⟩ := List.mem_map.1 (hright.mem_iff.2 he)
  exact ⟨p.1, hleft.mem_iff.1 (List.mem_map_of_mem hp), hpairs p hp⟩

/-- What is kept on both sides is alike if that depends on keys that stand for each other. -/
theorem filter (h : Paired K o w cs cs') (p p' : String → Bool)
    (hsame : ∀ {a b}, K o w a b → p a = p' b) :
    Paired K o w (cs.filter (p ·.1)) (cs'.filter (p' ·.1)) := by
  -- Pairs are kept by their left keys, which is the same as by their right keys.
  obtain ⟨pairs, hleft, hright, hpairs⟩ := h
  refine ⟨pairs.filter fun x => p x.1.1, ?_, ?_, fun x hx => hpairs x (List.mem_filter.1 hx).1⟩
  · have hfilter : (pairs.filter fun x => p x.1.1).map (·.1) =
        (pairs.map (·.1)).filter fun e => p e.1 := by
      rw [List.filter_map]
      rfl
    rw [hfilter]
    exact hleft.filter _
  · have hfilter : (pairs.filter fun x => p x.1.1).map (·.2) =
        (pairs.map (·.2)).filter fun e => p' e.1 := by
      rw [List.filter_map]
      exact congrArg _ (List.filter_congr fun x hx => hsame (hpairs x hx).1)
    rw [hfilter]
    exact hright.filter _

/-- One more tree on both sides. -/
theorem cons (h : Paired K o w cs cs') {k k' : String} (hk : K o w k k') (ht : Alike K t t')
    {ds ds' : List (String × WatchTree)} (hleft : ds.Perm ((k, t) :: cs))
    (hright : ds'.Perm ((k', t') :: cs')) : Paired K o w ds ds' := by
  obtain ⟨pairs, hl, hr, hpairs⟩ := h
  refine ⟨((k, t), (k', t')) :: pairs, (hl.cons _).trans hleft.symm, (hr.cons _).trans hright.symm,
    fun p hp => ?_⟩
  rcases List.mem_cons.1 hp with rfl | hp
  · exact ⟨hk, ht⟩
  · exact hpairs p hp

/-- What is at keys that stand for each other is alike, or missing on both sides. -/
theorem lookup (hK : K.Coherent) (h : Paired K o w cs cs') (hkeys : (cs.map (·.1)).Nodup)
    (hkeys' : (cs'.map (·.1)).Nodup) {k k' : String} (hk : K o w k k') :
    Option.Rel (Alike K) (cs.lookup k) (cs'.lookup k') := by
  cases hl : cs.lookup k with
  | some t =>
    obtain ⟨⟨k'', t'⟩, hmem, hkey, ht⟩ := h.exists_right (Dict.mem_of_lookup hl)
    have hsame : k = k ↔ k' = k'' := hK.one hk hkey
    obtain rfl := hsame.1 rfl
    rw [Dict.lookup_of_mem hkeys' hmem]
    exact .some ht
  | none =>
    cases hr : cs'.lookup k' with
    | none => exact .none
    | some t' =>
      -- What is at the key on this side stands for something on the other side.
      obtain ⟨⟨k'', t⟩, hmem, hkey, _⟩ := h.exists_left (Dict.mem_of_lookup hr)
      have hsame : k = k'' ↔ k' = k' := hK.one hk hkey
      obtain rfl := hsame.2 rfl
      rw [Dict.lookup_of_mem hkeys hmem] at hl
      cases hl

end Paired
/-- Nodes that are alike have below them trees that are alike. -/
theorem Alike.paired (h : Alike K t t') :
    t'.object = t.object ∧ t'.watcher = t.watcher ∧
      Paired K t.object t.watcher t.children t'.children := by
  cases h with
  | node pairs hleft hright hkeys hbelow =>
    exact ⟨rfl, rfl, pairs, hleft, hright, fun p hp => ⟨hkeys p hp, hbelow p hp⟩⟩

/-- A tree is like itself if each of its keys stands for itself. -/
theorem Alike.refl (h : t.Every fun o w labels => ∀ e ∈ labels, K o w e.1 e.1) : Alike K t t := by
  induction h with
  | node root below ih =>
    rename_i o w children
    refine .node (children.map fun e => (e, e)) ?_ ?_ (fun p hp => ?_) fun p hp => ?_
    · rw [List.map_map]
      exact .of_eq (List.map_id' _)
    · rw [List.map_map]
      exact .of_eq (List.map_id' _)
    · obtain ⟨e, he, rfl⟩ := List.mem_map.1 hp
      exact root (e.1, e.2.object) (List.mem_map_of_mem he)
    · obtain ⟨e, he, rfl⟩ := List.mem_map.1 hp
      exact ih e he

/-! ## The same nodes -/

/-- Trees that are alike have the same watchers. -/
theorem Alike.watchers_perm (h : Alike K t t') : t.watchers.Perm t'.watchers := by
  induction h with
  | node pairs hleft hright _ _ ih =>
    rw [watchers_node, watchers_node]
    refine List.Perm.cons _ ?_
    have hl := hleft.flatMap_right fun e : String × WatchTree => e.2.watchers
    have hr := hright.flatMap_right fun e : String × WatchTree => e.2.watchers
    rw [List.flatMap_map] at hl hr
    exact hl.symm.trans ((List.Perm.flatMap_left pairs ih).trans hr)

/-- So do trees below nodes that are alike. -/
theorem Paired.watchers_perm (h : Paired K o w cs cs') :
    (cs.flatMap (·.2.watchers)).Perm (cs'.flatMap (·.2.watchers)) := by
  have hperm := h.alike.watchers_perm
  rw [watchers_node, watchers_node] at hperm
  exact hperm.cons_inv

/-- The objects of a tree are those of its watchers. -/
theorem objects_eq (t : WatchTree) : t.objects = t.watchers.map (·.1) := by
  have hchildren (children : List (String × WatchTree)) :
      (∀ e ∈ children, e.2.objects = e.2.watchers.map (·.1)) →
        objectsOfChildren children = (children.flatMap (·.2.watchers)).map (·.1) := by
    induction children with
    | nil => exact fun _ => rfl
    | cons e children ih =>
      intro h
      rw [List.flatMap_cons, List.map_append, ← h e List.mem_cons_self,
        ← ih fun e he => h e (List.mem_cons_of_mem _ he)]
      rfl
  induction t using induct with
  | node o w children ih =>
    rw [watchers_node, List.map_cons, ← hchildren children ih]
    rfl

/-- A node below one of several trees is found below all of them, if no two nodes have one
watcher. -/
theorem find?_below {o' : ObjectId} {w' depth : Nat} {r : Nat × WatchTree}
    (hnodup : (node o' w' cs).watchers.Nodup) {e : String × WatchTree} (he : e ∈ cs)
    (hfind : e.2.find? o w (depth + 1) = some r) : (node o' w' cs).find? o w depth = some r := by
  have hmem : (o, w) ∈ e.2.watchers := (find?_spec hfind).1
  rw [watchers_node] at hnodup
  obtain ⟨hroot, hbelow⟩ := List.nodup_cons.1 hnodup
  have hne : ¬ (o' = o ∧ w' = w) := by
    rintro ⟨rfl, rfl⟩
    exact hroot (List.mem_flatMap.2 ⟨e, he, hmem⟩)
  rw [find?_node, if_neg hne]
  have hapart := (List.nodup_flatMap.1 hbelow).2
  clear hnodup hroot hbelow hne
  induction cs with
  | nil => cases he
  | cons e' cs ih =>
    obtain ⟨hfirst, hrest⟩ := List.pairwise_cons.1 hapart
    rw [List.findSome?_cons]
    rcases List.mem_cons.1 he with rfl | he
    · rw [hfind]
    · -- The first tree does not have the node, for another one does.
      have hnone : e'.2.find? o w (depth + 1) = none := by
        refine Option.eq_none_iff_forall_ne_some.2 fun ⟨depth', s⟩ hs => ?_
        exact hfirst e he (find?_spec hs).1 hmem
      rw [hnone]
      exact ih he hrest

/-- A node is found at the same depth in a tree like the one that it is found in, and there it is
like that. -/
theorem Alike.find? (h : Alike K t t') (hnodup : t.watchers.Nodup) {depth depth' : Nat}
    {s : WatchTree} (hfind : t.find? o w depth = some (depth', s)) :
    ∃ s', t'.find? o w depth = some (depth', s') ∧ Alike K s s' := by
  induction h generalizing depth with
  | node pairs hleft hright hkeys hbelow ih =>
    rename_i o' w' cs cs'
    have hperm := (Alike.node pairs hleft hright hkeys hbelow).watchers_perm
    by_cases hroot : o' = o ∧ w' = w
    · rw [find?_node, if_pos hroot] at hfind
      obtain ⟨rfl, rfl⟩ := Prod.mk.inj (Option.some.inj hfind)
      exact ⟨_, by rw [find?_node, if_pos hroot], .node pairs hleft hright hkeys hbelow⟩
    · rw [find?_node, if_neg hroot] at hfind
      -- The node is below one child, and in the other tree below the counterpart of that child.
      obtain ⟨e, he, hfound⟩ := List.exists_of_findSome?_eq_some hfind
      obtain ⟨p, hp, rfl⟩ := List.mem_map.1 (hleft.mem_iff.2 he)
      obtain ⟨s', hs', halike⟩ := ih p hp (nodup_below hnodup p.1 he).1 hfound
      exact ⟨s', find?_below (hperm.nodup_iff.1 hnodup)
        (hright.mem_iff.1 (List.mem_map_of_mem hp)) hs', halike⟩

/-- A node that is not found in a tree is not found in one like it. -/
theorem Alike.find?_none (h : Alike K t t') {depth : Nat} (hfind : t.find? o w depth = none) :
    t'.find? o w depth = none := by
  refine Option.eq_none_iff_forall_ne_some.2 fun ⟨depth', s⟩ hs => ?_
  have hmem := (find?_spec hs).1
  obtain ⟨_, _, hsome⟩ := exists_find? (h.watchers_perm.mem_iff.2 hmem) depth
  rw [hfind] at hsome
  cases hsome

/-- Trees stay alike when the children of nodes of one watcher are changed alike. -/
theorem Alike.modify (h : Alike K t t')
    {f f' : List (String × WatchTree) → List (String × WatchTree)}
    (hf : ∀ cs cs', Paired K o w cs cs' → Paired K o w (f cs) (f' cs')) :
    Alike K (t.modify o w f) (t'.modify o w f') := by
  induction h with
  | node pairs hleft hright hkeys hbelow ih =>
    rename_i o' w' cs cs'
    rw [modify_node, modify_node]
    by_cases hroot : o' = o ∧ w' = w
    · rw [if_pos hroot, if_pos hroot]
      obtain ⟨rfl, rfl⟩ := hroot
      exact (hf cs cs' ⟨pairs, hleft, hright, fun p hp => ⟨hkeys p hp, hbelow p hp⟩⟩).alike
    · rw [if_neg hroot, if_neg hroot]
      refine .node (pairs.map fun p => ((p.1.1, p.1.2.modify o w f), (p.2.1, p.2.2.modify o w f')))
        ?_ ?_ (fun p hp => ?_) fun p hp => ?_
      · have hmap := hleft.map fun e : String × WatchTree => (e.1, e.2.modify o w f)
        rw [List.map_map] at hmap ⊢
        exact hmap
      · have hmap := hright.map fun e : String × WatchTree => (e.1, e.2.modify o w f')
        rw [List.map_map] at hmap ⊢
        exact hmap
      · obtain ⟨q, hq, rfl⟩ := List.mem_map.1 hp
        exact hkeys q hq
      · obtain ⟨q, hq, rfl⟩ := List.mem_map.1 hp
        exact ih q hq

end WatchTree

end LiveScope
