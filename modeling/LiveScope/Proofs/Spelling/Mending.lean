import LiveScope.Proofs.Spelling.Models
import LiveScope.Proofs.World.Holding

/-!
# Moving and mending trees with other keys

Where trees are alike, moving a deep watch and mending its tree does the same to the objects and
leaves trees that are alike, even if the mended node is told of a key on one side and of one that
stands for it on the other (`Model.Respelled.retarget`, `Model.Respelled.mend`). What is built anew
is the same on both sides, since its nodes have new numbers.
-/

namespace LiveScope

variable {K : Keying} {m m' : Model} {id : DeepId} {o : ObjectId} {w : Nat}

namespace WatchTree.Paired

variable {cs cs' : List (String × WatchTree)} {k k' : String}

/-- What is not at keys that stand for each other. -/
theorem without (hK : K.Coherent) (h : Paired K o w cs cs') (hk : K o w k k') :
    Paired K o w (cs.filter (·.1 != k)) (cs'.filter (·.1 != k')) := by
  refine h.filter (· != k) (· != k') fun hab => ?_
  rw [Bool.eq_iff_iff, bne_iff_ne, bne_iff_ne]
  exact not_congr (hK.one hab hk)

/-- Trees put at keys that stand for each other. -/
theorem put {t t' : WatchTree} (hK : K.Coherent) (h : Paired K o w cs cs') (hk : K o w k k')
    (ht : Alike K t t') :
    Paired K o w (Dict.insertEntry k t (cs.filter (·.1 != k)))
      (Dict.insertEntry k' t' (cs'.filter (·.1 != k'))) := by
  have hfree (k : String) (cs : List (String × WatchTree)) :
      k ∉ (cs.filter (·.1 != k)).map (·.1) := by
    intro hmem
    obtain ⟨e, he, heq⟩ := List.mem_map.1 hmem
    have hne := (List.mem_filter.1 he).2
    rw [heq] at hne
    simp at hne
  exact (h.without hK hk).cons hk ht (Dict.insertEntry_perm t (hfree k cs))
    (Dict.insertEntry_perm t' (hfree k' cs'))

/-- What is past the end of a list, and what is not. -/
theorem pastEnd (hK : K.Coherent) (h : Paired K o w cs cs') (length : Nat) :
    Paired K o w (Model.pastEnd length cs).1 (Model.pastEnd length cs').1 ∧
      Paired K o w (Model.pastEnd length cs).2 (Model.pastEnd length cs').2 := by
  unfold Model.pastEnd
  rw [List.partition_eq_filter_filter, List.partition_eq_filter_filter]
  refine ⟨h.filter (fun a => (Store.index? a).any (length ≤ ·))
      (fun b => (Store.index? b).any (length ≤ ·)) fun hab => ?_,
    h.filter (fun a => !(Store.index? a).any (length ≤ ·))
      (fun b => !(Store.index? b).any (length ≤ ·)) fun hab => ?_⟩
  · rw [hK.index hab]
  · rw [hK.index hab]

end WatchTree.Paired

namespace Model

/-- A deep watch is moved if its value is another object than before. -/
theorem retarget_eq (m : Model) (id : DeepId) (v : Value) :
    retarget id v m = match v.object? with
      | none => (.ok (), m.dropTree id)
      | some q =>
        if (m.tree? id).map (·.object) = some q then (.ok (), m)
        else match attach id maxDepth q ((m.dropTree id).ensureBinding q) with
          | (.error fault, m₁) => (.error fault, m₁)
          | (.ok t, m₁) => (.ok (), m₁.setTree id (some t)) := by
  unfold retarget
  rw [Edit.bind_of_ok (e := get) rfl]
  cases v with
  | null | bool | number | text | function => rfl
  | object q =>
    dsimp only [Value.object?]
    split
    · rfl
    · rw [Edit.bind_of_ok (e := modify _) rfl, Edit.bind_of_ok (e := modify _) rfl]
      split
      · rename_i hattach
        exact Edit.bind_of_error hattach
      · rename_i hattach
        exact Edit.bind_of_ok hattach

namespace Respelled

/-- Models stay alike if the objects do, nothing else is held and the trees are alike. -/
theorem replace (h : m.Respelled K m') {m₁ m₁' : Model} (hobjects : m₁'.objects = m₁.objects)
    (hholds : m₁.holds = m.holds ∧ m₁'.holds = m'.holds)
    (hdeeps : ∀ d, (m₁.deep? d).map DeepWatch.bare = (m.deep? d).map DeepWatch.bare ∧
      (m₁'.deep? d).map DeepWatch.bare = (m'.deep? d).map DeepWatch.bare)
    (htrees : ∀ d, Option.Rel (WatchTree.Alike K) (m₁.tree? d) (m₁'.tree? d)) :
    m₁.Respelled K m₁' where
  objects := hobjects
  holds := hholds.2.trans (h.holds.trans hholds.1.symm)
  deeps d := (hdeeps d).2.trans ((h.deeps d).trans (hdeeps d).1.symm)
  trees := htrees

/-- To hold other things. -/
theorem hold (h : m.Respelled K m') (holds : List Hold) :
    Respelled K { m with holds } { m' with holds } where
  objects := h.objects
  holds := rfl
  deeps := h.deeps
  trees := h.trees

/-- To replace trees by trees that are alike. -/
theorem setTree (h : m.Respelled K m') {tree tree' : Option WatchTree}
    (ht : Option.Rel (WatchTree.Alike K) tree tree') :
    (m.setTree id tree).Respelled K (m'.setTree id tree') := by
  refine h.replace h.objects ⟨rfl, rfl⟩
    (fun d => ⟨(rewatches_setTree m id tree).deep? d, (rewatches_setTree m' id tree').deep? d⟩)
    fun d => ?_
  rw [tree?_setTree, tree?_setTree]
  split
  · have hsame := congrArg Option.isSome (h.deeps d)
    rw [Option.isSome_map, Option.isSome_map] at hsame
    cases hd : m.deep? d with
    | none =>
      rw [hd, Option.isSome_none, Option.isSome_eq_false_iff, Option.isNone_iff_eq_none] at hsame
      rw [hsame]
      exact .none
    | some deep =>
      rw [hd] at hsame
      obtain ⟨deep', hd'⟩ := Option.isSome_iff_exists.1 hsame
      rw [hd']
      exact ht
  · exact h.trees d

/-- To remove watchers, in whatever order. -/
theorem unwatchAll (h : m.Respelled K m') {ws ws' : List (ObjectId × Nat)} (hperm : ws.Perm ws') :
    (m.unwatchAll ws).Respelled K (m'.unwatchAll ws') := by
  have hsame {I : Model → Model → Prop} (hI : Watches I) (m : Model) (ws : List (ObjectId × Nat)) :
      I m (m.unwatchAll ws) := hI.steady.foldl ws (fun x _ m => hI.unwatch m x.1 x.2) m
  refine h.replace (objects_unwatchAll hperm h.objects)
    ⟨hsame watches_holds m ws, hsame watches_holds m' ws'⟩
    (fun d => ⟨(hsame Rewatches.watches m ws).deep? d, (hsame Rewatches.watches m' ws').deep? d⟩)
    fun d => ?_
  rw [tree?_congr (hsame watches_deeps m ws), tree?_congr (hsame watches_deeps m' ws')]
  exact h.trees d

/-- To take down trees that are alike. -/
theorem dropTree (h : m.Respelled K m') (id : DeepId) :
    (m.dropTree id).Respelled K (m'.dropTree id) := by
  have hdetached :
      ((m.tree? id).elim m m.detach).Respelled K ((m'.tree? id).elim m' m'.detach) := by
    rcases h.tree?_cases id with ⟨ht, ht'⟩ | ⟨t, t', ht, ht', halike⟩
    · rw [ht, ht']
      exact h
    · rw [ht, ht']
      exact h.unwatchAll halike.watchers_perm
  exact hdetached.setTree .none

/-- To build a tree gives the same tree. -/
theorem attach (h : m.Respelled K m') (id : DeepId) (levels : Nat) (q : ObjectId) :
    Edit.Agrees (Respelled K) (Model.attach id levels q (m.ensureBinding q))
      (Model.attach id levels q (m'.ensureBinding q)) := by
  have hlocal := Edit.Local.attach id levels q (m.ensureBinding q) (m'.ensureBinding q)
    (objects_ensureBinding_congr h.objects q)
  have hsame {I : Model → Model → Prop} (hI : Watches I) (m : Model) :
      I m (Model.attach id levels q (m.ensureBinding q)).2 :=
    hI.steady.trans (hI.ensureBinding m q) (hI.attach id levels q _)
  refine .of_eq hlocal.1 (h.replace hlocal.2 ⟨hsame watches_holds m, hsame watches_holds m'⟩
    (fun d => ⟨(hsame Rewatches.watches m).deep? d, (hsame Rewatches.watches m').deep? d⟩)
    fun d => ?_)
  rw [tree?_congr (hsame watches_deeps m), tree?_congr (hsame watches_deeps m')]
  exact h.trees d

end Respelled

/-- Whether every key stands for itself below nodes with numbers that were not given out. -/
def Fresh (K : Keying) (m : Model) : Prop := ∀ o w, m.lastIdOf o < w → ∀ k, K o w k k

/-- A tree that is built is like itself, for its numbers are new. -/
theorem alike_of_attach (hfresh : m.Fresh K) (hwhole : m.Whole) {m₁ m₂ : Model}
    (hr : m.Rewatches m₁) {levels : Nat} {q : ObjectId} {t : WatchTree} (hq : q < m.objects.size)
    (h : Model.attach id levels q (m₁.ensureBinding q) = (.ok t, m₂)) : t.Alike K t := by
  have hensure := Rewatches.steady.trans hr (rewatches_ensureBinding m₁ q)
  have hbound : (m₁.ensureBinding q).isBound q = true :=
    isBound_ensureBinding_self (by rw [hr.size]; exact hq)
  obtain ⟨hgrown, _, hmirrors⟩ := Model.attach_of_ok (hwhole.rewatches hensure) hbound h
  refine .refl (hmirrors.imp fun o w labels hmem _ e _ => hfresh o w ?_ e.1)
  exact Nat.lt_of_le_of_lt (hensure.lastIdOf o) (hgrown.fresh (o, w) hmem).1

/-- Moving a deep watch does the same where trees are alike. -/
theorem Respelled.retarget (h : m.Respelled K m') (hfresh : m.Fresh K) (hwhole : m.Whole)
    {v : Value} (hv : ∀ q, v = .object q → q < m.objects.size) (id : DeepId) :
    Edit.Agrees (Respelled K) (Model.retarget id v m) (Model.retarget id v m') := by
  have hroot : (m'.tree? id).map (·.object) = (m.tree? id).map (·.object) := by
    rcases h.tree?_cases id with ⟨ht, ht'⟩ | ⟨t, t', ht, ht', halike⟩
    · rw [ht, ht']
    · rw [ht, ht']
      exact congrArg some halike.paired.1
  rw [retarget_eq, retarget_eq]
  cases hq : v.object? with
  | none => exact .ok () (h.dropTree id)
  | some q =>
    dsimp only
    rw [hroot]
    split
    · exact .ok () h
    · have hbuilt := (h.dropTree id).attach id maxDepth q
      generalize hl : Model.attach id maxDepth q ((m.dropTree id).ensureBinding q) = x at hbuilt ⊢
      generalize Model.attach id maxDepth q ((m'.dropTree id).ensureBinding q) = x' at hbuilt ⊢
      cases hbuilt with
      | error fault halike => exact .error fault halike
      | ok t halike =>
        have ht := alike_of_attach hfresh hwhole (rewatches_dropTree m id)
          (hv q (Value.object?_eq_some_iff.1 hq)) hl
        exact .ok () (halike.setTree (.some ht))

/-- To take trees from below nodes that are alike. -/
theorem Respelled.cut (h : m.Respelled K m') (id : DeepId) {t t' : WatchTree}
    (halike : t.Alike K t')
    {keep keep' : List (String × WatchTree) → List (String × WatchTree)}
    {gone gone' : List (String × WatchTree)}
    (hkeep : ∀ cs cs', WatchTree.Paired K o w cs cs' → WatchTree.Paired K o w (keep cs) (keep' cs'))
    (hgone : (gone.flatMap (·.2.watchers)).Perm (gone'.flatMap (·.2.watchers))) :
    (m.cut id t o w keep gone).Respelled K (m'.cut id t' o w keep' gone') := by
  unfold Model.cut
  rw [detachAll_eq, detachAll_eq]
  exact (h.setTree (.some (halike.modify hkeep))).unwatchAll hgone

/-- What is at keys that stand for each other has the same watchers. -/
theorem perm_atKey_of_rel {cs cs' : List (String × WatchTree)} {k k' : String}
    (h : Option.Rel (WatchTree.Alike K) (cs.lookup k) (cs'.lookup k')) :
    ((atKey k cs).flatMap (·.2.watchers)).Perm ((atKey k' cs').flatMap (·.2.watchers)) := by
  unfold atKey
  cases hl : cs.lookup k with
  | none =>
    rw [hl] at h
    cases hr : cs'.lookup k' with
    | none => exact .refl _
    | some =>
      rw [hr] at h
      cases h
  | some t =>
    rw [hl] at h
    cases hr : cs'.lookup k' with
    | none =>
      rw [hr] at h
      cases h
    | some t' =>
      rw [hr] at h
      cases h with
      | some halike => exact halike.watchers_perm.append_right []

/-- The objects at keys that stand for each other are the same. -/
theorem object_of_rel {t t' : Option WatchTree} (h : Option.Rel (WatchTree.Alike K) t t') :
    t'.map (·.object) = t.map (·.object) := by
  cases h with
  | none => rfl
  | some halike => exact congrArg some halike.paired.1

/-- Mending the node of a watcher does the same where trees are alike, told of keys that stand for
each other. -/
theorem Respelled.mend (h : m.Respelled K m') (id : DeepId) (hK : K.Coherent)
    (hunshared : m.Unshared) (hunshared' : m'.Unshared) (hfresh : m.Fresh K) (hwhole : m.Whole)
    {v : Value} (hv : ∀ q, v = .object q → q < m.objects.size) {k k' : String} (hk : K o w k k') :
    Edit.Agrees (Respelled K) (Model.mend id o w k v m) (Model.mend id o w k' v m') := by
  have habsent (hl : m.isDeepAlive id = true → (m.tree? id).bind (·.find? o w 1) = none)
      (hr : m'.isDeepAlive id = true → (m'.tree? id).bind (·.find? o w 1) = none) :
      Edit.Agrees (Respelled K) (Model.mend id o w k v m) (Model.mend id o w k' v m') := by
    rw [mend_of_not_found hl, mend_of_not_found hr]
    exact .ok () h
  -- Whether there is a node to mend does not depend on keys.
  by_cases halive : m.isDeepAlive id = true
  swap
  · exact habsent (fun hl => absurd hl halive) fun hr => absurd (h.isDeepAlive id ▸ hr) halive
  rcases h.tree?_cases id with ⟨ht, ht'⟩ | ⟨t, t', ht, ht', hsame⟩
  · exact habsent (fun _ => by rw [ht]; rfl) fun _ => by rw [ht']; rfl
  cases hfind : t.find? o w 1 with
  | none =>
    exact habsent (fun _ => by rw [ht]; exact hfind) fun _ => by
      rw [ht']
      exact hsame.find?_none hfind
  | some found =>
    obtain ⟨depth, node⟩ := found
    obtain ⟨node', hfind', hnode⟩ := hsame.find? (hunshared id t ht).1 hfind
    obtain ⟨_, rfl, rfl⟩ := WatchTree.find?_spec hfind
    have hpaired := hnode.paired.2.2
    have hlookup := hpaired.lookup hK ((hunshared id t ht).2.1.keys_of_find? hfind)
      ((hunshared' id t' ht').2.1.keys_of_find? hfind') hk
    have hobject := object_of_rel hlookup
    have hthere := congrArg Option.isSome hobject
    rw [Option.isSome_map, Option.isSome_map] at hthere
    have hlen : (k' = Store.lengthKey ∧ (m.store node.object).isList) ↔
        (k = Store.lengthKey ∧ (m.store node.object).isList) := and_congr_left' (hK.length hk).symm
    rw [mend_eq halive ht hfind, mend_eq (h.isDeepAlive id ▸ halive) ht' hfind',
      store_congr h.objects, hobject, hthere]
    by_cases hlength : k = Store.lengthKey ∧ (m.store node.object).isList
    · -- What is past the end of a list is found by the index that a key denotes.
      rw [if_pos hlength, if_pos (hlen.2 hlength)]
      exact .ok () (h.cut id hsame (fun _ _ hcs => (hcs.pastEnd hK _).2)
        (hpaired.pastEnd hK _).1.watchers_perm)
    rw [if_neg hlength, if_neg fun hl => hlength (hlen.1 hl)]
    split
    · -- The object at the key is the one that was there.
      exact .ok () h
    have hcut := h.cut id hsame (fun _ _ hcs => hcs.without hK hk) (perm_atKey_of_rel hlookup)
    have htree := tree?_cut ht node.object node.watcher (·.filter (·.1 != k))
      (atKey k node.children) id
    have htree' := tree?_cut ht' node.object node.watcher (·.filter (·.1 != k'))
      (atKey k' node'.children) id
    rw [if_pos rfl] at htree htree'
    have hswapped := swapped_cut m id t node.object node.watcher (·.filter (·.1 != k))
      (atKey k node.children)
    dsimp only
    generalize m.cut id t _ _ _ _ = a at hcut htree hswapped ⊢
    generalize m'.cut id t' _ _ _ _ = a' at hcut htree' ⊢
    cases hq : v.object? with
    | none => exact .ok () hcut
    | some q =>
      dsimp only
      have hbuilt := hcut.attach id (maxDepth - depth) q
      have hdeeps (b : Model) := watches_deeps.attach id (maxDepth - depth) q (b.ensureBinding q)
      have hdeepsl := hdeeps a
      have hdeepsr := hdeeps a'
      generalize hl : Model.attach id (maxDepth - depth) q (a.ensureBinding q) = x
        at hbuilt hdeepsl ⊢
      generalize Model.attach id (maxDepth - depth) q (a'.ensureBinding q) = x'
        at hbuilt hdeepsr ⊢
      cases hbuilt with
      | error fault halike => exact .error fault halike
      | @ok b b' new halike =>
        -- The new tree is put at the key that was cleared, on each side under its own spelling.
        have hnew := alike_of_attach hfresh hwhole hswapped.rewatches
          (hv q (Value.object?_eq_some_iff.1 hq)) hl
        refine .ok () ?_
        rw [(tree?_congr hdeepsl id).trans htree, (tree?_congr hdeepsr id).trans htree',
          Option.map_some, Option.map_some, WatchTree.modify_modify, WatchTree.modify_modify]
        exact halike.setTree (.some (hsame.modify fun _ _ hcs => hcs.put hK hk hnew))

end Model

end LiveScope
