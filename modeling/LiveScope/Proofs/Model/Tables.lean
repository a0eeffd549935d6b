import LiveScope.Model.Release

/-!
# The tables of a model, object by object

What each primitive change of a model does to the store and to the tables of every object. A change
of one binding leaves all other objects as they are, and a change of a tree or of the holds leaves
all objects as they are; an object that is not part of the model has no tables, and stays without.
-/

namespace LiveScope.Model

/-- The connections of an object. -/
def connectionsOf (m : Model) (o : ObjectId) : List Connection :=
  (m.binding? o).elim [] (·.connections)

/-- The registrations of an object. -/
def registrationsOf (m : Model) (o : ObjectId) : List Registration :=
  (m.binding? o).elim [] (·.registrations)

/-- The last number that an object's binding gave out. -/
def lastIdOf (m : Model) (o : ObjectId) : Nat := (m.binding? o).elim 0 (·.lastId)

/-- The enclosing scope that was set for an object, alive or not. -/
def linkOf (m : Model) (o : ObjectId) : Option ObjectId := (m.binding? o).bind (·.parent)

/-- The keys that an object's binding is restricted to. -/
def keysOf (m : Model) (o : ObjectId) : Option (List String) := (m.binding? o).bind (·.keys)

/-! ## Changes of one object -/

/-- A change of an object does not add any. -/
theorem size_modifyObject (m : Model) (o : ObjectId) (f : DataObject → DataObject) :
    (m.modifyObject o f).objects.size = m.objects.size :=
  Array.size_modify

/-- A change of an object changes that object. -/
theorem objects_modifyObject (m : Model) (o : ObjectId) (f : DataObject → DataObject)
    (p : ObjectId) :
    (m.modifyObject o f).objects[p]? = if p = o then m.objects[p]?.map f else m.objects[p]? := by
  show (m.objects.modify o f)[p]? = _
  rw [Array.getElem?_modify]
  by_cases h : p = o
  · rw [if_pos h, if_pos h.symm]
  · rw [if_neg h, if_neg fun h' => h h'.symm]

section read

variable {α : Type} (read : Option DataObject → α)

/-- What a change of an object does not touch is read as before. -/
theorem read_modifyObject {f : DataObject → DataObject} (h : ∀ x, read (f x) = read x) (m : Model)
    (o p : ObjectId) : read (m.modifyObject o f).objects[p]? = read m.objects[p]? := by
  rw [objects_modifyObject]
  split
  · cases m.objects[p]? with
    | none => rfl
    | some x => exact h x
  · rfl

/-- What a change puts in an object is read from it, if there is such an object. -/
theorem read_modifyObject_of_put {f : DataObject → DataObject} {new : α} {m : Model}
    {p : ObjectId} (h : ∀ x, m.objects[p]? = some x → read (f x) = new) (o : ObjectId) :
    read (m.modifyObject o f).objects[p]? =
      if p = o ∧ p < m.objects.size then new else read m.objects[p]? := by
  rw [objects_modifyObject]
  by_cases hp : p = o
  · by_cases hlt : p < m.objects.size
    · have hx := Array.getElem?_eq_getElem hlt
      rw [if_pos hp, if_pos ⟨hp, hlt⟩, hx]
      exact h _ hx
    · rw [if_pos hp, if_neg fun h => hlt h.2, Array.getElem?_eq_none (Nat.le_of_not_lt hlt)]
      rfl
  · rw [if_neg hp, if_neg fun h => hp h.1]

end read

/-- A change of a binding changes that binding. -/
theorem binding?_modifyBinding (m : Model) (o : ObjectId) (f : Binding → Binding) (p : ObjectId) :
    (m.modifyBinding o f).binding? p = if p = o then (m.binding? p).map f else m.binding? p := by
  unfold binding? modifyBinding
  rw [objects_modifyObject]
  split
  · cases m.objects[p]? <;> rfl
  · rfl

/-- A change of a binding changes no store. -/
theorem store_modifyBinding (m : Model) (o : ObjectId) (f : Binding → Binding) (p : ObjectId) :
    (m.modifyBinding o f).store p = m.store p :=
  read_modifyObject (fun x => (x.map DataObject.store).getD default) (fun _ => by rfl) m o p

/-- An object of the model has a binding afterwards, the one it had or a new one. -/
theorem binding?_ensureBinding (m : Model) (o p : ObjectId) :
    (m.ensureBinding o).binding? p =
      if p = o ∧ p < m.objects.size then some ((m.binding? p).getD {}) else m.binding? p := by
  refine read_modifyObject_of_put (·.bind DataObject.binding) (fun x hx => ?_) o
  unfold binding?
  rw [hx]
  rfl

/-- Giving an object a binding changes no store. -/
theorem store_ensureBinding (m : Model) (o p : ObjectId) :
    (m.ensureBinding o).store p = m.store p :=
  read_modifyObject (fun x => (x.map DataObject.store).getD default) (fun _ => by rfl) m o p

/-- A list is an object of the model. -/
theorem lt_size_of_isList {m : Model} {o : ObjectId} (h : (m.store o).isList = true) :
    o < m.objects.size := by
  unfold store at h
  by_cases hlt : o < m.objects.size
  · exact hlt
  · rw [Array.getElem?_eq_none (Nat.le_of_not_lt hlt)] at h
    cases h

/-- A write changes the store of an object of the model. -/
theorem store_setStore (m : Model) (o : ObjectId) (s : Store) (p : ObjectId) :
    (m.setStore o s).store p = if p = o ∧ p < m.objects.size then s else m.store p :=
  read_modifyObject_of_put (fun x => (x.map DataObject.store).getD default) (fun _ _ => by rfl) o

/-- What is written in an object of the model is in it. -/
theorem store_setStore_self {m : Model} {o : ObjectId} {s : Store} (ho : o < m.objects.size) :
    (m.setStore o s).store o = s := by
  rw [store_setStore, if_pos ⟨rfl, ho⟩]

/-- A write changes the store of no other object. -/
theorem store_setStore_of_ne {m : Model} {o p : ObjectId} {s : Store} (hp : p ≠ o) :
    (m.setStore o s).store p = m.store p := by
  rw [store_setStore, if_neg fun h => hp h.1]

/-- A write changes no binding. -/
theorem binding?_setStore (m : Model) (o : ObjectId) (s : Store) (p : ObjectId) :
    (m.setStore o s).binding? p = m.binding? p :=
  read_modifyObject (·.bind DataObject.binding) (fun _ => by rfl) m o p

/-- Only an object of the model has a binding. -/
theorem lt_size_of_binding? {m : Model} {o : ObjectId} {b : Binding} (h : m.binding? o = some b) :
    o < m.objects.size := by
  unfold binding? at h
  by_cases hlt : o < m.objects.size
  · exact hlt
  · rw [Array.getElem?_eq_none (Nat.le_of_not_lt hlt)] at h
    cases h

/-- Only an object of the model is bound. -/
theorem lt_size_of_isBound {m : Model} {o : ObjectId} (h : m.isBound o = true) :
    o < m.objects.size := by
  obtain ⟨_, hb⟩ := Option.isSome_iff_exists.1 h
  exact lt_size_of_binding? hb

/-- An object with an entry in a table has a binding. -/
theorem isBound_of_mem_elim {α : Type} (table : Binding → List α) {m : Model} {o : ObjectId} {x : α}
    (h : x ∈ (m.binding? o).elim [] table) : m.isBound o = true := by
  unfold isBound
  cases hb : m.binding? o with
  | none =>
    rw [hb] at h
    cases h
  | some => rfl

/-- A new object has no binding, and the others keep theirs. -/
theorem binding?_add (m : Model) (s : Store) (p : ObjectId) :
    (m.add s).2.binding? p = m.binding? p := by
  show (m.objects.push { store := s })[p]?.bind (·.binding) = m.objects[p]?.bind (·.binding)
  rw [Array.getElem?_push]
  split
  · rename_i hp
    rw [hp, Array.getElem?_eq_none (Nat.le_refl _)]
    rfl
  · rfl

/-- A new object has its content, and the others keep theirs. -/
theorem store_add (m : Model) (s : Store) (p : ObjectId) :
    (m.add s).2.store p = if p = m.objects.size then s else m.store p := by
  show ((m.objects.push { store := s })[p]?.map (·.store)).getD default = _
  rw [Array.getElem?_push]
  split <;> rfl

/-- An object is added to the others. -/
theorem size_add (m : Model) (s : Store) : (m.add s).2.objects.size = m.objects.size + 1 :=
  Array.size_push _

/-! ## One table at a time

A table is read off a binding by a function `table`, and `absent` stands for that of an object
without a binding. -/

section Table

variable {α : Type} (table : Binding → α)

/-- A change of a binding that keeps a table. -/
theorem elim_modifyBinding {f : Binding → Binding} (h : ∀ b, table (f b) = table b) (absent : α)
    (m : Model) (o p : ObjectId) :
    ((m.modifyBinding o f).binding? p).elim absent table = (m.binding? p).elim absent table := by
  rw [binding?_modifyBinding]
  split
  · cases m.binding? p with
    | none => rfl
    | some b => exact h b
  · rfl

/-- A new binding has the table that stands for none. -/
theorem elim_ensureBinding (m : Model) (o p : ObjectId) :
    ((m.ensureBinding o).binding? p).elim (table {}) table =
      (m.binding? p).elim (table {}) table := by
  rw [binding?_ensureBinding]
  split
  · cases m.binding? p <;> rfl
  · rfl

/-- A write keeps all tables. -/
theorem elim_setStore (absent : α) (m : Model) (o : ObjectId) (s : Store) (p : ObjectId) :
    ((m.setStore o s).binding? p).elim absent table = (m.binding? p).elim absent table := by
  rw [binding?_setStore]

end Table

/-- The link is read off a binding like a table. -/
theorem linkOf_eq_elim (m : Model) (o : ObjectId) :
    m.linkOf o = (m.binding? o).elim none (·.parent) := by
  unfold linkOf
  cases m.binding? o <;> rfl

/-- The restriction is read off a binding like a table. -/
theorem keysOf_eq_elim (m : Model) (o : ObjectId) :
    m.keysOf o = (m.binding? o).elim none (·.keys) := by
  unfold keysOf
  cases m.binding? o <;> rfl

/-- A change of a binding that keeps its link keeps all links. -/
theorem linkOf_modifyBinding {f : Binding → Binding} (h : ∀ b, (f b).parent = b.parent) (m : Model)
    (o p : ObjectId) : (m.modifyBinding o f).linkOf p = m.linkOf p := by
  rw [linkOf_eq_elim, linkOf_eq_elim]
  exact elim_modifyBinding (·.parent) h none m o p

/-- A change of a binding that keeps its restriction keeps all restrictions. -/
theorem keysOf_modifyBinding {f : Binding → Binding} (h : ∀ b, (f b).keys = b.keys) (m : Model)
    (o p : ObjectId) : (m.modifyBinding o f).keysOf p = m.keysOf p := by
  rw [keysOf_eq_elim, keysOf_eq_elim]
  exact elim_modifyBinding (·.keys) h none m o p

/-- Giving an object a binding keeps the links. -/
theorem linkOf_ensureBinding (m : Model) (o p : ObjectId) :
    (m.ensureBinding o).linkOf p = m.linkOf p := by
  rw [linkOf_eq_elim, linkOf_eq_elim]
  exact elim_ensureBinding (·.parent) m o p

/-- Giving an object a binding keeps the restrictions. -/
theorem keysOf_ensureBinding (m : Model) (o p : ObjectId) :
    (m.ensureBinding o).keysOf p = m.keysOf p := by
  rw [keysOf_eq_elim, keysOf_eq_elim]
  exact elim_ensureBinding (·.keys) m o p

/-- A write keeps all connections. -/
theorem connectionsOf_setStore (m : Model) (o : ObjectId) (s : Store) (p : ObjectId) :
    (m.setStore o s).connectionsOf p = m.connectionsOf p :=
  elim_setStore (·.connections) [] m o s p

/-- A write keeps all watchers. -/
theorem watchersOf_setStore (m : Model) (o : ObjectId) (s : Store) (p : ObjectId) :
    (m.setStore o s).watchersOf p = m.watchersOf p :=
  elim_setStore (·.watchers) [] m o s p

/-- A write keeps all restrictions. -/
theorem keysOf_setStore (m : Model) (o : ObjectId) (s : Store) (p : ObjectId) :
    (m.setStore o s).keysOf p = m.keysOf p := by
  rw [keysOf_eq_elim, elim_setStore (·.keys) none m o s p, ← keysOf_eq_elim]

/-- The next number follows the last one. -/
theorem nextId_eq (m : Model) (o : ObjectId) : m.nextId o = m.lastIdOf o + 1 := by
  unfold nextId lastIdOf
  cases m.binding? o <;> rfl

/-- A change of a binding gives no object a binding and takes none away. -/
theorem isBound_modifyBinding (m : Model) (o : ObjectId) (f : Binding → Binding) (p : ObjectId) :
    (m.modifyBinding o f).isBound p = m.isBound p := by
  unfold isBound
  rw [binding?_modifyBinding]
  split
  · rw [Option.isSome_map]
  · rfl

/-- An object that had a binding keeps it. -/
theorem isBound_ensureBinding {m : Model} {p : ObjectId} (h : m.isBound p = true) (o : ObjectId) :
    (m.ensureBinding o).isBound p = true := by
  unfold isBound at *
  rw [binding?_ensureBinding]
  split
  · rfl
  · exact h

/-- An object of the model has a binding afterwards. -/
theorem isBound_ensureBinding_self {m : Model} {o : ObjectId} (h : o < m.objects.size) :
    (m.ensureBinding o).isBound o = true := by
  unfold isBound
  rw [binding?_ensureBinding, if_pos ⟨rfl, h⟩]
  rfl

/-! ## Who is told -/

/-- The handlers of a key are taken from all connections of the object. -/
theorem handlersOf_eq (m : Model) (o : ObjectId) (key : String) :
    m.handlersOf o key = (m.connectionsOf o).filter (·.key == key) := by
  unfold handlersOf connectionsOf
  cases m.binding? o <;> rfl

/-- The handlers of a key are the connections of the object that have this key. -/
theorem mem_handlersOf {m : Model} {o : ObjectId} {key : String} {c : Connection} :
    c ∈ m.handlersOf o key ↔ c ∈ m.connectionsOf o ∧ c.key = key := by
  rw [handlersOf_eq, List.mem_filter, beq_iff_eq]

/-- A connection of an object is found by its key and number. -/
theorem isConnected_of_mem {m : Model} {o : ObjectId} {c : Connection}
    (h : c ∈ m.connectionsOf o) : m.isConnected o ⟨c.key, c.seq⟩ = true :=
  List.any_eq_true.2 ⟨c, mem_handlersOf.2 ⟨h, rfl⟩, beq_self_eq_true c.seq⟩

/-- An object with connections has a binding. -/
theorem isBound_of_mem_connectionsOf {m : Model} {o : ObjectId} {c : Connection}
    (h : c ∈ m.connectionsOf o) : m.isBound o = true :=
  isBound_of_mem_elim (·.connections) h

/-- Whether changes of a key of an object are told of, given that it has a binding. -/
def Opens (m : Model) (o : ObjectId) (key : String) : Prop :=
  ∀ keys, m.keysOf o = some keys → keys.contains key = true

/-- An object that is not restricted opens all keys. -/
theorem opens_of_none {m : Model} {o : ObjectId} (h : m.keysOf o = none) (key : String) :
    m.Opens o key := by
  intro keys hkeys
  rw [h] at hkeys
  cases hkeys

/-- An object with connections tells of the keys that it opens. -/
theorem notifies_of_mem {m : Model} {o : ObjectId} {c : Connection} {key : String}
    (h : c ∈ m.connectionsOf o) (hopens : m.Opens o key) : m.notifies o key = true := by
  obtain ⟨b, hb⟩ := Option.isSome_iff_exists.1 (isBound_of_mem_connectionsOf h)
  unfold Opens keysOf at hopens
  unfold notifies
  rw [hb] at hopens ⊢
  show b.keys.all _ = true
  cases hkeys : b.keys with
  | none => rfl
  | some keys => exact hopens keys hkeys

/-! ## Watchers -/

/-- A new watcher comes last, with the next number. -/
theorem watchersOf_watch {m : Model} {o : ObjectId} (h : m.isBound o = true) (w : Watch)
    (p : ObjectId) :
    (m.watch o w).2.watchersOf p =
      if p = o then m.watchersOf p ++ [⟨m.nextId o, w⟩] else m.watchersOf p := by
  unfold watchersOf watch
  rw [binding?_modifyBinding]
  split
  · rename_i hp
    subst hp
    obtain ⟨b, hb⟩ := Option.isSome_iff_exists.1 h
    unfold nextId
    rw [hb]
    rfl
  · rfl

/-- An object without a binding gets no watcher. -/
theorem watch_of_not_isBound {m : Model} {o : ObjectId} (h : ¬ m.isBound o = true) (w : Watch)
    (p : ObjectId) : (m.watch o w).2.binding? p = m.binding? p := by
  unfold watch
  rw [binding?_modifyBinding]
  split
  · rename_i hp
    subst hp
    rw [isBound, Option.isSome_iff_exists] at h
    cases hb : m.binding? p with
    | none => rfl
    | some b => exact absurd ⟨b, hb⟩ h
  · rfl

/-- A new watcher takes a number. -/
theorem lastIdOf_watch {m : Model} {o : ObjectId} (h : m.isBound o = true) (w : Watch)
    (p : ObjectId) :
    (m.watch o w).2.lastIdOf p = if p = o then m.lastIdOf p + 1 else m.lastIdOf p := by
  unfold lastIdOf watch
  rw [binding?_modifyBinding]
  split
  · rename_i hp
    subst hp
    obtain ⟨b, hb⟩ := Option.isSome_iff_exists.1 h
    rw [hb]
    rfl
  · rfl

/-- Removing a watcher takes out those with its number. -/
theorem watchersOf_unwatch (m : Model) (o : ObjectId) (seq : Nat) (p : ObjectId) :
    (m.unwatch o seq).2.watchersOf p =
      (m.watchersOf p).filter fun x => !(p == o && x.seq == seq) := by
  unfold watchersOf unwatch
  rw [binding?_modifyBinding]
  split
  · rename_i hp
    subst hp
    cases m.binding? p with
    | none => rfl
    | some b =>
      show b.watchers.filter _ = b.watchers.filter _
      refine List.filter_congr fun x _ => ?_
      simp [bne]
  · rename_i hp
    rw [List.filter_eq_self.2]
    intro x _
    simp [hp]

/-! ## Deep watches -/

/-- Replacing a tree does so for one deep watch. -/
theorem deep?_setTree (m : Model) (id : DeepId) (tree : Option WatchTree) (d : DeepId) :
    (m.setTree id tree).deep? d =
      if d = id then (m.deep? d).map fun x => { x with tree } else m.deep? d := by
  unfold deep? setTree
  rw [Array.getElem?_modify]
  by_cases h : d = id
  · rw [if_pos h, if_pos h.symm]
  · rw [if_neg h, if_neg fun h' => h h'.symm]

/-- Replacing a tree replaces the one of that deep watch, if there is such a watch. -/
theorem tree?_setTree (m : Model) (id : DeepId) (tree : Option WatchTree) (d : DeepId) :
    (m.setTree id tree).tree? d =
      if d = id then (m.deep? d).bind fun _ => tree else m.tree? d := by
  unfold tree?
  rw [deep?_setTree]
  split
  · cases m.deep? d <;> rfl
  · rfl

/-- A deep watch that exists has the tree that is set for it. -/
theorem tree?_setTree_self {m : Model} {id : DeepId} (h : (m.deep? id).isSome = true)
    (tree : Option WatchTree) : (m.setTree id tree).tree? id = tree := by
  obtain ⟨deep, hdeep⟩ := Option.isSome_iff_exists.1 h
  rw [tree?_setTree, if_pos rfl, hdeep]
  rfl

/-- What changes a tree that is there. -/
theorem tree?_modifyTree {m : Model} {id : DeepId} {t : WatchTree} (h : m.tree? id = some t)
    (f : WatchTree → WatchTree) :
    (m.setTree id ((m.tree? id).map f)).tree? id = some (f t) := by
  obtain ⟨deep, hdeep, _⟩ := Option.bind_eq_some_iff.1 h
  rw [tree?_setTree_self (Option.isSome_of_eq_some hdeep), h]
  rfl

/-- The deep watches with one more. -/
def addDeep (m : Model) (deep : DeepWatch) : Model := { m with deeps := m.deeps.push deep }

/-- A new deep watch comes last. -/
theorem deep?_addDeep (m : Model) (deep : DeepWatch) (d : DeepId) :
    (m.addDeep deep).deep? d = if d = m.deeps.size then some deep else m.deep? d :=
  Array.getElem?_push

end LiveScope.Model

namespace LiveScope.Binding

/-! ## Changes that take entries out -/

/-- Whether a change of a binding does no more than take entries out of its tables. -/
structure Sheds (f : Binding → Binding) : Prop where
  /-- Connections are taken out at most. -/
  connections : ∀ b, (f b).connections.Sublist b.connections
  /-- Watchers are taken out at most. -/
  watchers : ∀ b, (f b).watchers.Sublist b.watchers
  /-- Registrations are taken out at most. -/
  registrations : ∀ b, (f b).registrations.Sublist b.registrations
  /-- The link is the same. -/
  parent : ∀ b, (f b).parent = b.parent
  /-- Changes of the same keys are told of. -/
  keys : ∀ b, (f b).keys = b.keys
  /-- The last number given out is the same. -/
  lastId : ∀ b, (f b).lastId = b.lastId

/-- Removing a handler. -/
theorem sheds_disconnect (id : SubscriptionId) : Sheds (·.disconnect id) :=
  ⟨fun _ => List.filter_sublist, fun _ => .refl _, fun _ => .refl _, fun _ => rfl, fun _ => rfl,
    fun _ => rfl⟩

/-- Removing a watcher. -/
theorem sheds_unwatch (seq : Nat) : Sheds (·.unwatch seq) :=
  ⟨fun _ => .refl _, fun _ => List.filter_sublist, fun _ => .refl _, fun _ => rfl, fun _ => rfl,
    fun _ => rfl⟩

/-- Removing a registration. -/
theorem sheds_unregister (id : Nat) : Sheds (·.unregister id) :=
  ⟨fun _ => .refl _, fun _ => .refl _, fun _ => List.filter_sublist, fun _ => rfl, fun _ => rfl,
    fun _ => rfl⟩

/-- Removing all registrations. -/
theorem sheds_registrations : Sheds fun b => { b with registrations := [] } :=
  ⟨fun _ => .refl _, fun _ => .refl _, fun _ => List.nil_sublist _, fun _ => rfl, fun _ => rfl,
    fun _ => rfl⟩

/-- Removing all handlers and watchers. -/
theorem sheds_handlers : Sheds fun b => { b with connections := [], watchers := [] } :=
  ⟨fun _ => List.nil_sublist _, fun _ => List.nil_sublist _, fun _ => .refl _, fun _ => rfl,
    fun _ => rfl, fun _ => rfl⟩

end LiveScope.Binding
