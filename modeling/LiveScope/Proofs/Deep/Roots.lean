import LiveScope.Proofs.Model.Mending

/-!
# The object that a deep watch watches

To move a deep watch to a value makes the value the root of its tree, or leaves it without a tree if
the value lies too deep. To mend a tree changes what is below its root, and no root.
-/

namespace LiveScope.Model

variable {m m' : Model} {id d : DeepId} {v : Value}

/-! ## Deep watches that stay as they are -/

/-- Whether a deep watch is the same in both models. -/
def SameDeep (d : DeepId) (m m' : Model) : Prop := m'.deep? d = m.deep? d

/-- Any number of changes that keep a deep watch keep it. -/
theorem SameDeep.steady (d : DeepId) : Steady (SameDeep d) where
  refl _ := rfl
  trans h h' := h'.trans h

/-- A change of something else. -/
theorem SameDeep.of_deeps (h : m'.deeps = m.deeps) : SameDeep d m m' := by
  unfold SameDeep deep?
  rw [h]

/-- Replacing the tree of another deep watch. -/
theorem sameDeep_setTree (hd : d ≠ id) (m : Model) (tree : Option WatchTree) :
    SameDeep d m (m.setTree id tree) :=
  (deep?_setTree m id tree d).trans (if_neg hd)

/-- A deep watch stays as it is when watchers change. -/
theorem SameDeep.watches (d : DeepId) : Watches (SameDeep d) where
  steady := SameDeep.steady d
  ensureBinding _ _ := rfl
  watch _ _ _ := rfl
  unwatch _ _ _ := rfl

/-- Moving another deep watch. -/
theorem sameDeep_retarget (hd : d ≠ id) (v : Value) : Edit.Keeps (SameDeep d) (retarget id v) :=
  (SameDeep.watches d).retarget (fun m => sameDeep_setTree hd m) v

/-- Mending the tree of another deep watch. -/
theorem sameDeep_mend (hd : d ≠ id) (o : ObjectId) (w : Nat) (key : String) (v : Value) :
    Edit.Keeps (SameDeep d) (mend id o w key v) :=
  (SameDeep.watches d).mend (fun m _ _ _ => sameDeep_setTree hd m _) o w key v

/-! ## Roots -/

/-- The object that a deep watch watches with everything inside it. -/
def watchedRoot (m : Model) (d : DeepId) : Option ObjectId := (m.tree? d).map (·.object)

/-- Whether a deep watch watches the same object in both models. -/
def SameRoot (d : DeepId) (m m' : Model) : Prop := m'.watchedRoot d = m.watchedRoot d

/-- Any number of changes that keep a root keep it. -/
theorem SameRoot.steady (d : DeepId) : Steady (SameRoot d) where
  refl _ := rfl
  trans h h' := h'.trans h

/-- The roots are read off the deep watches. -/
theorem SameDeep.sameRoot (h : SameDeep d m m') : SameRoot d m m' := by
  unfold SameRoot watchedRoot tree?
  rw [h]

/-- A change of something else keeps the roots. -/
theorem SameRoot.of_deeps (h : m'.deeps = m.deeps) : SameRoot d m m' :=
  (SameDeep.of_deeps h).sameRoot

/-- Replacing what is below a node. -/
theorem sameRoot_modify (m : Model) (o : ObjectId) (w : Nat)
    (f : List (String × WatchTree) → List (String × WatchTree)) :
    SameRoot d m (m.setTree id ((m.tree? id).map (·.modify o w f))) := by
  by_cases hd : d = id
  · subst hd
    unfold SameRoot watchedRoot
    rw [tree?_setTree, if_pos rfl]
    unfold tree?
    cases m.deep? d with
    | none => rfl
    | some deep =>
      cases htree : deep.tree with
      | none => simp [htree]
      | some t =>
        simp only [Option.bind_some, htree, Option.map_some]
        rw [WatchTree.object_modify]
  · exact (sameDeep_setTree hd m _).sameRoot

/-- A tree has the object at its root that it is built for. -/
theorem object_of_attach {levels : Nat} {o : ObjectId} {t : WatchTree}
    (h : attach id levels o m = (.ok t, m')) : t.object = o := by
  cases levels with
  | zero => cases h
  | succ levels =>
    rw [attach_succ, Edit.bind_of_ok (e := get) rfl] at h
    obtain ⟨children, m₁, _, h⟩ := Edit.ok_of_bind h
    rw [Edit.bind_of_ok (e := modifyGet _) rfl] at h
    obtain ⟨ht, _⟩ := Prod.mk.inj h
    rw [← Except.ok.inj ht]
    rfl

/-- A deep watch that is moved watches the new value, if that is an object and was not refused. -/
theorem watchedRoot_retarget {r : Except Fault Unit} (hdeep : (m.deep? id).isSome = true)
    (h : retarget id v m = (r, m')) :
    m'.watchedRoot id = if r.isOk then v.object? else none := by
  have hdropped (m : Model) : (m.dropTree id).watchedRoot id = none := by
    unfold watchedRoot
    rw [tree?_dropTree, if_pos rfl]
    rfl
  cases moved_of_retarget h with
  | @stays t ht hvalue =>
    unfold watchedRoot
    rw [ht, hvalue]
    rfl
  | dropped hvalue => exact (hdropped m).trans hvalue.symm
  | @refused o fault m₁ hvalue hattach =>
    have hdeeps := watches_deeps.attach id maxDepth o ((m.dropTree id).ensureBinding o)
    rw [hattach] at hdeeps
    exact (SameRoot.of_deeps (d := id) hdeeps).trans (hdropped m)
  | @built o t m₁ hvalue hattach =>
    have hdeeps := watches_deeps.attach id maxDepth o ((m.dropTree id).ensureBinding o)
    rw [hattach] at hdeeps
    have hexists : (m₁.deep? id).isSome = true := by
      unfold deep?
      rw [show m₁.deeps = (m.dropTree id).deeps from hdeeps]
      exact ((rewatches_dropTree m id).isSome_deep? id).trans hdeep
    unfold watchedRoot
    rw [tree?_setTree_self hexists, hvalue]
    exact congrArg some (object_of_attach hattach)

/-- A root stays when watchers change. -/
theorem SameRoot.watches (d : DeepId) : Watches (SameRoot d) where
  steady := SameRoot.steady d
  ensureBinding _ _ := rfl
  watch _ _ _ := rfl
  unwatch _ _ _ := rfl

/-- Mending a tree. -/
theorem sameRoot_mend (d id : DeepId) (o : ObjectId) (w : Nat) (key : String) (v : Value) :
    Edit.Keeps (SameRoot d) (mend id o w key v) :=
  (SameRoot.watches d).mend sameRoot_modify o w key v

end LiveScope.Model
