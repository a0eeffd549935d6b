import LiveScope.Proofs.Model.Mending

/-!
# Nodes with numbers of their own

The nodes of a tree have different watchers, whose numbers were given out, and below each node every
key is there once (`Model.Unshared`). Moving and mending keep it so, whether or not an object is
refused, as long as the values exist.
-/

namespace LiveScope.Model

variable {m m' : Model} {id : DeepId} {o : ObjectId} {w : Nat} {key : String} {v : Value}

/-- Whether the nodes of every tree have watchers of their own, whose numbers were given out, and
keys of their own. -/
def Unshared (m : Model) : Prop :=
  ∀ d t, m.tree? d = some t →
    t.watchers.Nodup ∧ t.Keyed ∧ ∀ x ∈ t.watchers, x.2 ≤ m.lastIdOf x.1

/-- Numbers that were given out stay so, where the trees stay or go. -/
theorem Unshared.of_trees (h : m.Unshared) (hle : ∀ p, m.lastIdOf p ≤ m'.lastIdOf p)
    (htrees : ∀ d t, m'.tree? d = some t → m.tree? d = some t) : m'.Unshared := by
  intro d t ht
  obtain ⟨hnodup, hkeyed, hbound⟩ := h d t (htrees d t ht)
  exact ⟨hnodup, hkeyed, fun x hx => Nat.le_trans (hbound x hx) (hle x.1)⟩

/-- The watchers of a tree, if there is one, are different and have numbers that were given out. -/
theorem Unshared.watched (h : m.Unshared) (d : DeepId) :
    (m.watched d).Nodup ∧ ∀ x ∈ m.watched d, x.2 ≤ m.lastIdOf x.1 := by
  unfold Model.watched
  cases ht : m.tree? d with
  | none => exact ⟨.nil, nofun⟩
  | some t => exact ⟨(h d t ht).1, (h d t ht).2.2⟩

/-- A tree that regrows gets nodes with new numbers. -/
theorem Unshared.regrown {out gone added : List (ObjectId × Nat)} (h : m.Unshared)
    (hr : Regrown id out gone added m m') : m'.Unshared := by
  have hle := hr.swapped.rewatches.lastIdOf
  intro d t ht
  by_cases hd : d = id
  · subst hd
    obtain ⟨hnodup, hold⟩ := h.watched d
    have hafter : t.watchers.Perm (out ++ added) := by
      rw [← watched_of_tree? ht]
      exact hr.after
    have hout : ∀ x ∈ out, x.2 ≤ m.lastIdOf x.1 := fun x hx =>
      hold x (hr.before.mem_iff.2 (List.mem_append_left _ hx))
    refine ⟨hafter.nodup_iff.2 ?_, hr.keyed t ht, fun x hx => ?_⟩
    · -- What is added has numbers that are new, so it is not among what stays.
      refine List.nodup_append.2 ⟨(List.nodup_append.1 (hr.before.nodup_iff.1 hnodup)).1,
        hr.swapped.nodup, fun x hx y hy heq => ?_⟩
      have hxle := hout x hx
      have hylt := (hr.swapped.fresh y hy).1
      subst heq
      exact Nat.not_lt.2 hxle hylt
    · rcases List.mem_append.1 (hafter.mem_iff.1 hx) with hx | hx
      · exact Nat.le_trans (hout x hx) (hle x.1)
      · exact (hr.swapped.fresh x hx).2
  · obtain ⟨hnodup, hkeyed, hbound⟩ := h d t ((hr.others d hd).symm.trans ht)
    exact ⟨hnodup, hkeyed, fun x hx => Nat.le_trans (hbound x hx) (hle x.1)⟩

/-- A tree that was taken down is not there. -/
theorem Unshared.dropTree (h : m.Unshared) (id : DeepId) : (m.dropTree id).Unshared := by
  refine h.of_trees (rewatches_dropTree m id).lastIdOf fun d t ht => ?_
  rw [tree?_dropTree] at ht
  split at ht
  · cases ht
  · exact ht

/-- To watch another object in vain leaves the trees. -/
theorem Unshared.attach {levels : Nat} {q : ObjectId} {r : Except Fault WatchTree} {m₁ : Model}
    (h : m.Unshared) (hattach : Model.attach id levels q (m.ensureBinding q) = (r, m₁)) :
    m₁.Unshared := by
  have hdeeps : m₁.deeps = (m.ensureBinding q).deeps :=
    (watches_deeps.attach id levels q).of_run hattach
  have hrewatches : m.Rewatches m₁ := Rewatches.steady.trans (rewatches_ensureBinding m q)
    ((Rewatches.watches.attach id levels q).of_run hattach)
  refine h.of_trees hrewatches.lastIdOf fun d t ht => ?_
  exact (tree?_congr (m := m) hdeeps d).symm.trans ht

/-- A deep watch that is moved to a value that exists has nodes with numbers of their own. -/
theorem Unshared.retarget (h : m.Unshared) (hwhole : m.Whole)
    (hv : ∀ q, v = .object q → q < m.objects.size) {r : Except Fault Unit}
    (hr : Model.retarget id v m = (r, m')) : m'.Unshared := by
  cases moved_of_retarget hr with
  | stays => exact h
  | dropped => exact h.dropTree id
  | refused _ hattach => exact (h.dropTree id).attach hattach
  | @built q t m₁ hvalue hattach =>
    by_cases hdeep : (m.deep? id).isSome = true
    · rcases regrown_retarget hwhole hdeep hv hr with rfl | ⟨_, _, hregrown⟩
      · exact h
      · exact h.regrown hregrown
    · -- The tree of no deep watch is kept nowhere.
      refine ((h.dropTree id).attach hattach).of_trees (fun _ => Nat.le_refl _) fun d s hs => ?_
      rw [← (rewatches_retarget id v).of_run hr |>.isSome_deep?, Option.isSome_iff_ne_none,
        not_not] at hdeep
      by_cases hd : d = id
      · subst hd
        unfold tree? at hs
        rw [hdeep] at hs
        cases hs
      · rwa [tree?_setTree, if_neg hd] at hs

/-- A deep watch that is mended with a value that exists has nodes with numbers of their own. -/
theorem Unshared.mend (h : m.Unshared) (hwhole : m.Whole)
    (hv : ∀ q, v = .object q → q < m.objects.size) {r : Except Fault Unit}
    (hr : Model.mend id o w key v m = (r, m')) : m'.Unshared := by
  have hnodup (t : WatchTree) (ht : m.tree? id = some t) : t.watchers.Nodup ∧ t.Keyed :=
    ⟨(h id t ht).1, (h id t ht).2.1⟩
  cases r with
  | ok =>
    rcases regrown_mend hwhole hv hnodup hr with rfl | ⟨_, _, _, hregrown⟩
    · exact h
    · exact h.regrown hregrown
  | error fault =>
    cases mended_of_mend hr with
    | refused ht hfind _ _ hattach =>
      -- What was at the key is gone, and nothing is put there.
      obtain ⟨hdistinct, hkeyed⟩ := hnodup _ ht
      obtain ⟨_, hregrown⟩ := regrown_cut ht hdistinct hkeyed hfind key
      exact (h.regrown hregrown).attach hattach

end LiveScope.Model
