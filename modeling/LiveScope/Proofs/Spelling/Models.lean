import LiveScope.Proofs.Formula.Dependence
import LiveScope.Proofs.Model.Nodes
import LiveScope.Proofs.Spelling.Trees

/-!
# Models that differ in the trees of deep watches

What is in an object and who subscribes to it does not depend on the trees of deep watches, and
what does depend on them depends on the objects and watchers of a tree alone. So models whose trees
are alike (`Model.Respelled`) have the same objects alive (`Model.Respelled.isAlive`) and evaluate
expressions the same (`Model.Respelled.eval`). To build a tree sees the objects alone
(`Edit.Local.attach`), and it does not matter in which order its watchers are removed
(`Model.objects_unwatchAll`).
-/

namespace LiveScope

variable {m m' : Model}

/-! ## What depends on the objects alone -/

namespace Model

/-- The content of objects is read off them. -/
theorem store_congr (h : m'.objects = m.objects) : m'.store = m.store := by
  funext o
  unfold store
  rw [h]

/-- Bindings are read off the objects. -/
theorem binding?_congr (h : m'.objects = m.objects) : m'.binding? = m.binding? := by
  funext o
  unfold binding?
  rw [h]

/-- To change the binding of an object does not depend on anything else. -/
theorem objects_modifyBinding_congr (h : m'.objects = m.objects) (o : ObjectId)
    (f : Binding → Binding) : (m'.modifyBinding o f).objects = (m.modifyBinding o f).objects :=
  congrArg (·.modify o fun x => { x with binding := x.binding.map f }) h

/-- To give an object a binding does not depend on anything else. -/
theorem objects_ensureBinding_congr (h : m'.objects = m.objects) (o : ObjectId) :
    (m'.ensureBinding o).objects = (m.ensureBinding o).objects :=
  congrArg (·.modify o fun x => { x with binding := some (x.binding.getD {}) }) h

end Model

namespace Edit

variable {α β : Type}

/-- Whether a change sees and changes nothing but the objects. -/
def Local (e : Edit α) : Prop :=
  ∀ m m' : Model, m'.objects = m.objects →
    (e m').1 = (e m).1 ∧ (e m').2.objects = (e m).2.objects

namespace Local

/-- A result alone. -/
theorem pure (a : α) : Local (pure a : Edit α) := fun _ _ h => ⟨rfl, h⟩

/-- A failure alone. -/
theorem throw (fault : Fault) : Local (throw fault : Edit α) := fun _ _ h => ⟨rfl, h⟩

/-- Two changes, one after the other. -/
theorem bind {e : Edit α} {f : α → Edit β} (he : Local e) (hf : ∀ a, Local (f a)) :
    Local (e >>= f) := by
  intro m m' h
  obtain ⟨hresult, hobjects⟩ := he m m' h
  cases hm : e m with
  | mk r m₁ =>
    cases hm' : e m' with
    | mk r' m₁' =>
      rw [hm, hm'] at hresult hobjects
      obtain rfl : r' = r := hresult
      cases r' with
      | ok a =>
        rw [bind_of_ok hm, bind_of_ok hm']
        exact hf a m₁ m₁' hobjects
      | error fault =>
        rw [bind_of_error hm, bind_of_error hm']
        exact ⟨rfl, hobjects⟩

/-- The same for every member of a list. -/
theorem mapM {f : α → Edit β} (hf : ∀ a, Local (f a)) (xs : List α) : Local (xs.mapM f) := by
  induction xs with
  | nil => exact pure []
  | cons x xs ih =>
    rw [List.mapM_cons]
    exact bind (hf x) fun _ => bind ih fun _ => pure _

/-- Building a tree sees and changes nothing but the objects. -/
theorem attach (id : DeepId) (levels : Nat) (o : ObjectId) : Local (Model.attach id levels o) := by
  induction levels generalizing o with
  | zero => exact throw _
  | succ levels ih =>
    intro m m' h
    -- Members are read off the objects, and so are the numbers that new watchers are given.
    have hmembers : m'.objectMembers o = m.objectMembers o := by
      unfold Model.objectMembers
      rw [Model.store_congr h]
    have hmember (x : String × ObjectId) : Local (Model.attachMember id levels x) := by
      refine bind (e := modify _) (fun m m' h => ⟨rfl, ?_⟩) fun _ => bind (ih x.2) fun _ => pure _
      exact Model.objects_ensureBinding_congr h x.2
    have hwatch : Local (modifyGet (·.watch o (.mend id)) : Edit Nat) := by
      refine fun m m' h => ⟨?_, Model.objects_modifyBinding_congr h o _⟩
      show Except.ok (m'.nextId o) = Except.ok (m.nextId o)
      unfold Model.nextId
      rw [Model.binding?_congr h]
    rw [Model.attach_succ, bind_of_ok (e := get) rfl, bind_of_ok (e := get) rfl, hmembers]
    exact bind (mapM hmember _) (fun _ => bind hwatch fun _ => pure _) m m' h

end Local

end Edit

/-! ## Two changes with one result -/

/-- Whether two changes of models have the same result and leave models in a relation. -/
inductive Edit.Agrees {α : Type} (R : Model → Model → Prop) :
    Except Fault α × Model → Except Fault α × Model → Prop
  | ok {m m' : Model} (a : α) (models : R m m') : Agrees R (.ok a, m) (.ok a, m')
  | error {m m' : Model} (fault : Fault) (models : R m m') :
      Agrees R (.error fault, m) (.error fault, m')

namespace Edit.Agrees

variable {α : Type} {R : Model → Model → Prop} {x x' : Except Fault α × Model}

/-- Changes agree if their results are the same and their models in the relation. -/
theorem of_eq (hresult : x'.1 = x.1) (hmodels : R x.2 x'.2) : Agrees R x x' := by
  obtain ⟨r, m⟩ := x
  obtain ⟨r', m'⟩ := x'
  obtain rfl : r' = r := hresult
  cases r' with
  | ok a => exact .ok a hmodels
  | error fault => exact .error fault hmodels

/-- Changes that agree have the same result. -/
theorem result (h : Agrees R x x') : x'.1 = x.1 := by
  cases h <;> rfl

/-- Changes that agree leave models in the relation. -/
theorem models (h : Agrees R x x') : R x.2 x'.2 := by
  cases h with
  | ok _ hmodels => exact hmodels
  | error _ hmodels => exact hmodels

end Edit.Agrees

/-! ## Taking out several watchers -/

namespace Model

/-- Removes watchers, each from its object. -/
def unwatchAll (m : Model) (ws : List (ObjectId × Nat)) : Model :=
  ws.foldl (fun m x => (m.unwatch x.1 x.2).2) m

/-- The watchers of several trees are removed one after the other. -/
theorem detachAll_eq (m : Model) (children : List (String × WatchTree)) :
    children.foldl (fun m e => m.detach e.2) m =
      m.unwatchAll (children.flatMap (·.2.watchers)) := by
  unfold unwatchAll
  rw [List.foldl_flatMap]
  rfl

/-- It does not matter which of two watchers is removed first. -/
theorem unwatch_comm (m : Model) (x y : ObjectId × Nat) :
    ((m.unwatch x.1 x.2).2.unwatch y.1 y.2).2 = ((m.unwatch y.1 y.2).2.unwatch x.1 x.2).2 := by
  have hfilter (b : Binding) : (b.unwatch x.2).unwatch y.2 = (b.unwatch y.2).unwatch x.2 := by
    show { b with watchers := (b.watchers.filter _).filter _ } =
      { b with watchers := (b.watchers.filter _).filter _ }
    rw [List.filter_filter, List.filter_filter]
    congr 2
    funext w
    exact Bool.and_comm _ _
  let f (seq : Nat) (d : DataObject) : DataObject :=
    { d with binding := d.binding.map (·.unwatch seq) }
  have hf (d : DataObject) : f y.2 (f x.2 d) = f x.2 (f y.2 d) := by
    show { d with binding := (d.binding.map _).map _ } =
      { d with binding := (d.binding.map _).map _ }
    rw [Option.map_map, Option.map_map]
    exact congrArg (fun g => { d with binding := d.binding.map g }) (funext hfilter)
  have hobjects : ((m.unwatch x.1 x.2).2.unwatch y.1 y.2).2.objects =
      ((m.unwatch y.1 y.2).2.unwatch x.1 x.2).2.objects := by
    refine Array.ext_getElem? fun p => ?_
    show ((m.objects.modify x.1 (f x.2)).modify y.1 (f y.2))[p]? =
      ((m.objects.modify y.1 (f y.2)).modify x.1 (f x.2))[p]?
    simp only [Array.getElem?_modify]
    -- Only if both watchers are in the object does the order have a chance to matter.
    by_cases hx : x.1 = p
    · by_cases hy : y.1 = p
      · rw [if_pos hx, if_pos hy, if_pos hx, if_pos hy, Option.map_map, Option.map_map]
        exact congrArg (Option.map · _) (funext hf)
      · rw [if_neg hy, if_pos hx, if_pos hx, if_neg hy]
    · rw [if_neg hx, if_neg hx]
  calc ((m.unwatch x.1 x.2).2.unwatch y.1 y.2).2
      = { m with objects := ((m.unwatch x.1 x.2).2.unwatch y.1 y.2).2.objects } := rfl
    _ = { m with objects := ((m.unwatch y.1 y.2).2.unwatch x.1 x.2).2.objects } := by rw [hobjects]
    _ = ((m.unwatch y.1 y.2).2.unwatch x.1 x.2).2 := rfl

/-- It does not matter in which order watchers are removed, nor what is not in the objects. -/
theorem objects_unwatchAll {ws ws' : List (ObjectId × Nat)} (hperm : ws.Perm ws')
    (h : m'.objects = m.objects) :
    (m'.unwatchAll ws').objects = (m.unwatchAll ws).objects := by
  have horder : m.unwatchAll ws = m.unwatchAll ws' :=
    hperm.foldl_eq' (fun x _ y _ z => unwatch_comm z x y) m
  rw [horder]
  clear horder hperm
  induction ws' generalizing m m' with
  | nil => exact h
  | cons x ws' ih => exact ih (objects_modifyBinding_congr h x.1 _)

end Model

/-! ## What does not depend on keys in trees -/

/-- Whether two models are the same but for their trees, and these are alike. -/
structure Model.Respelled (K : Keying) (m m' : Model) : Prop where
  /-- The objects are the same. -/
  objects : m'.objects = m.objects
  /-- The same is held. -/
  holds : m'.holds = m.holds
  /-- The deep watches are the same but for their trees. -/
  deeps : ∀ d, (m'.deep? d).map DeepWatch.bare = (m.deep? d).map DeepWatch.bare
  /-- The trees are alike. -/
  trees : ∀ d, Option.Rel (WatchTree.Alike K) (m.tree? d) (m'.tree? d)

namespace Model.Respelled

variable {K : Keying} (h : m.Respelled K m')

include h

/-- A deep watch has no tree in either model, or trees that are alike. -/
theorem tree?_cases (d : DeepId) : m.tree? d = none ∧ m'.tree? d = none ∨
    ∃ t t', m.tree? d = some t ∧ m'.tree? d = some t' ∧ t.Alike K t' := by
  have htree := h.trees d
  cases ht : m.tree? d with
  | none =>
    cases ht' : m'.tree? d with
    | none => exact .inl ⟨rfl, rfl⟩
    | some =>
      rw [ht, ht'] at htree
      cases htree
  | some t =>
    cases ht' : m'.tree? d with
    | none =>
      rw [ht, ht'] at htree
      cases htree
    | some t' =>
      rw [ht, ht'] at htree
      cases htree with
      | some halike => exact .inr ⟨t, t', rfl, rfl, halike⟩

/-- A deep watch is in neither model, or the same in both but for its tree. -/
theorem deep?_cases (d : DeepId) : m.deep? d = none ∧ m'.deep? d = none ∨
    ∃ deep tree, m.deep? d = some deep ∧ m'.deep? d = some { deep with tree } := by
  have hsame := h.deeps d
  cases hd : m.deep? d with
  | none =>
    rw [hd, Option.map_none, Option.map_eq_none_iff] at hsame
    exact .inl ⟨rfl, hsame⟩
  | some deep =>
    rw [hd, Option.map_some, Option.map_eq_some_iff] at hsame
    obtain ⟨deep', hd', hbare⟩ := hsame
    have heq : deep' = { deep with tree := deep'.tree } :=
      congrArg (fun bare : DeepWatch => { bare with tree := deep'.tree }) hbare
    exact .inr ⟨deep, deep'.tree, rfl, hd'.trans (congrArg some heq)⟩

/-- Objects have the same bindings. -/
theorem binding? : m'.binding? = m.binding? := binding?_congr h.objects

/-- The same keys of an object are told of. -/
theorem notifies : m'.notifies = m.notifies := by
  unfold Model.notifies
  rw [h.binding?]

/-- The same handlers are connected to keys. -/
theorem handlersOf : m'.handlersOf = m.handlersOf := by
  unfold Model.handlersOf
  rw [h.binding?]

/-- Objects have the same watchers. -/
theorem watchersOf : m'.watchersOf = m.watchersOf := by
  unfold Model.watchersOf
  rw [h.binding?]

/-- The same handlers are still connected. -/
theorem isConnected : m'.isConnected = m.isConnected := by
  unfold Model.isConnected
  rw [h.handlersOf]

/-- The same watchers are still registered. -/
theorem isWatching : m'.isWatching = m.isWatching := by
  unfold Model.isWatching
  rw [h.watchersOf]

/-- Objects in objects exist in both models or in neither. -/
theorem whole (hwhole : m.Whole) : m'.Whole := by
  intro o q hq
  rw [store_congr h.objects] at hq
  exact h.objects ▸ hwhole o q hq

/-- The same objects are in trees that are alike. -/
theorem mem_deepObjects (d : DeepId) (p : ObjectId) :
    p ∈ m'.deepObjects d ↔ p ∈ m.deepObjects d := by
  unfold deepObjects
  rcases h.tree?_cases d with ⟨ht, ht'⟩ | ⟨t, t', ht, ht', halike⟩
  · rw [ht, ht']
  · rw [ht, ht']
    show p ∈ t'.objects ↔ p ∈ t.objects
    rw [WatchTree.objects_eq, WatchTree.objects_eq]
    exact (halike.watchers_perm.map (·.1)).mem_iff.symm

/-- The same objects are held. -/
theorem mem_heldObjects (p : ObjectId) : p ∈ m'.heldObjects ↔ p ∈ m.heldObjects := by
  unfold heldObjects
  rw [h.holds, List.mem_flatMap, List.mem_flatMap]
  refine exists_congr fun hold => and_congr_right fun _ => ?_
  cases hold with
  | object => rfl
  | deep d => exact h.mem_deepObjects d p

/-- An object refers to the same objects. -/
theorem mem_references (o p : ObjectId) : p ∈ m'.references o ↔ p ∈ m.references o := by
  -- Beside its members an object refers to what deep watches have in their trees.
  have hhandler (handler : Handler) :
      p ∈ m'.handlerObjects handler ↔ p ∈ m.handlerObjects handler := by
    cases handler with
    | report | recompute => rfl
    | follow d => exact h.mem_deepObjects d p
  unfold references
  rw [store_congr h.objects, h.binding?, List.mem_append, List.mem_append]
  refine or_congr_right ?_
  cases m.binding? o with
  | none => rfl
  | some b =>
    show p ∈ _ ++ _ ↔ p ∈ _ ++ _
    rw [List.mem_append, List.mem_append, List.mem_flatMap, List.mem_flatMap, List.mem_flatMap,
      List.mem_flatMap]
    refine or_congr (exists_congr fun c => and_congr_right fun _ => hhandler c.handler)
      (exists_congr fun r => and_congr_right fun _ => ?_)
    cases r.deep with
    | none => rfl
    | some d => exact h.mem_deepObjects d p

/-- The same objects are alive. -/
theorem mem_living (o : ObjectId) : o ∈ m'.living ↔ o ∈ m.living :=
  mem_living_congr (congrArg Array.size h.objects) (fun p hp => (h.mem_heldObjects p).2 hp)
    (fun p hp => .inl ((h.mem_heldObjects p).1 hp)) (fun o p hp => (h.mem_references o p).2 hp)
    (fun o p hp => .inl ((h.mem_references o p).1 hp)) o

/-- The same objects are alive. -/
theorem isAlive : m'.isAlive = m.isAlive := by
  funext o
  unfold Model.isAlive
  rw [Bool.eq_iff_iff, List.contains_iff_mem, List.contains_iff_mem]
  exact h.mem_living o

/-- The same deep watches are alive. -/
theorem isDeepAlive (d : DeepId) : m'.isDeepAlive d = m.isDeepAlive d := by
  unfold Model.isDeepAlive
  rw [h.holds, h.binding?, Bool.eq_iff_iff, Bool.or_eq_true, Bool.or_eq_true,
    List.any_eq_true, List.any_eq_true]
  refine or_congr_right (exists_congr fun o => and_congr_left fun _ => h.mem_living o)

/-- The same scope encloses an object. -/
theorem enclosing? : m'.enclosing? = m.enclosing? := by
  funext o
  unfold Model.enclosing? parent? Model.isBound Model.get
  rw [h.binding?, h.isAlive, store_congr h.objects]

/-- Variables have the same values. -/
theorem lookup (data : Value) (n : ScopedName) : m'.lookup data n = m.lookup data n := by
  have hclimb (hops : Nat) (v : Value) : m'.climb n hops v = m.climb n hops v := by
    induction hops generalizing v with
    | zero => rfl
    | succ hops ih =>
      unfold climb
      rw [h.enclosing?]
      cases v.object?.bind m.enclosing? with
      | none => rfl
      | some p => exact ih (.object p)
  have hmember (v : Value) : m'.memberOf v n.name = m.memberOf v n.name := by
    unfold memberOf Model.get
    rw [store_congr h.objects]
  unfold Model.lookup
  simp only [hclimb, hmember]

/-- Expressions have the same values. -/
theorem eval (e : Expr) (data row : Value) : e.eval m' data row = e.eval m data row := by
  have hclosed : m.Closed fun _ => True := fun _ _ _ _ => trivial
  have htext (v : Value) : m'.text v = m.text v :=
    text_congr hclosed (fun o _ => congrFun (store_congr h.objects) o) fun _ _ => trivial
  rw [Expr.eval_eq_evalBy, Expr.eval_eq_evalBy]
  refine (Expr.evalBy_congr (fun _ => True) (fun _ _ => trivial) (fun v _ => htext v)
    (fun name => ⟨?_, trivial⟩) e fun n _ => ⟨h.lookup data n, fun _ _ => trivial⟩).1
  unfold memberOf Model.get
  rw [store_congr h.objects]

end Model.Respelled

end LiveScope
