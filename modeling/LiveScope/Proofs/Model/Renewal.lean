import LiveScope.Proofs.Model.Altering
import LiveScope.Proofs.Model.Climbing
import LiveScope.Proofs.Model.Orderly

/-!
# Numbers are never given out again

A binding numbers the entries of its three tables from one counter. `Binding.Numbered` says that
each table ascends and no number is used twice, `Binding.Renews` what any change makes of the
tables: an entry under a number that had been given out before is one that was there before. All
that subscribes or releases renews the tables of a model in this way (`Model.renews_alters`), so
that an entry is known by its number for ever (`Model.Renews.connected_iff`,
`Model.Renews.watching_iff`).
-/

namespace LiveScope

namespace Binding

variable {b b' b'' : Binding}

/-- The numbers of the entries of all three tables. -/
def numbers (b : Binding) : List Nat :=
  b.connections.map (·.seq) ++ b.watchers.map (·.seq) ++ b.registrations.map (·.id)

/-- Whether the numbers of each table ascend up to the last one given out, and none is used
twice. -/
structure Numbered (b : Binding) : Prop where
  /-- The connections have ascending numbers. -/
  connections : Ascends b.lastId (b.connections.map (·.seq))
  /-- The watchers have ascending numbers. -/
  watchers : Ascends b.lastId (b.watchers.map (·.seq))
  /-- The registrations have ascending numbers. -/
  registrations : Ascends b.lastId (b.registrations.map (·.id))
  /-- No number occurs twice, also not in different tables. -/
  distinct : b.numbers.Nodup

/-- A new binding has given out no number. -/
theorem numbered_new (parent : Option ObjectId) (keys : Option (List String)) :
    Numbered { parent, keys } :=
  ⟨.nil 0, .nil 0, .nil 0, .nil⟩

/-- No number in use is above the last one given out. -/
theorem Numbered.bounded (h : b.Numbered) : ∀ n ∈ b.numbers, n ≤ b.lastId := by
  intro n hn
  rcases List.mem_append.1 hn with hn | hn
  · exact (List.mem_append.1 hn).elim (h.connections.bounded n) (h.watchers.bounded n)
  · exact h.registrations.bounded n hn

/-- What a change makes of a binding: it gives out further numbers, in order, and an entry under an
old number is an old entry. -/
structure Renews (b b' : Binding) : Prop where
  /-- Numbers that were given out stay given out. -/
  lastId : b.lastId ≤ b'.lastId
  /-- A connection under an old number was there. -/
  connections : ∀ c ∈ b'.connections, c.seq ≤ b.lastId → c ∈ b.connections
  /-- A watcher under an old number was there. -/
  watchers : ∀ x ∈ b'.watchers, x.seq ≤ b.lastId → x ∈ b.watchers
  /-- A registration under an old number was there. -/
  registrations : ∀ r ∈ b'.registrations, r.id ≤ b.lastId → r ∈ b.registrations
  /-- The numbers are in order, if they were. -/
  numbered : b.Numbered → b'.Numbered

namespace Renews

/-- Any number of changes is one. -/
theorem steady : Steady Renews where
  refl _ := ⟨Nat.le_refl _, fun _ h _ => h, fun _ h _ => h, fun _ h _ => h, id⟩
  trans h h' := {
    lastId := Nat.le_trans h.lastId h'.lastId
    connections := fun c hc hle =>
      h.connections c (h'.connections c hc (Nat.le_trans hle h.lastId)) hle
    watchers := fun x hx hle => h.watchers x (h'.watchers x hx (Nat.le_trans hle h.lastId)) hle
    registrations := fun r hr hle =>
      h.registrations r (h'.registrations r hr (Nat.le_trans hle h.lastId)) hle
    numbered := fun hn => h'.numbered (h.numbered hn) }

/-- Entries are taken out. -/
theorem of_sublists (hconnections : b'.connections.Sublist b.connections)
    (hwatchers : b'.watchers.Sublist b.watchers)
    (hregistrations : b'.registrations.Sublist b.registrations) (hlast : b'.lastId = b.lastId) :
    b.Renews b' where
  lastId := Nat.le_of_eq hlast.symm
  connections _ hc _ := hconnections.subset hc
  watchers _ hx _ := hwatchers.subset hx
  registrations _ hr _ := hregistrations.subset hr
  numbered h := by
    refine ⟨?_, ?_, ?_, ?_⟩
    · exact h.connections.sublist (hconnections.map _) (Nat.le_of_eq hlast.symm)
    · exact h.watchers.sublist (hwatchers.map _) (Nat.le_of_eq hlast.symm)
    · exact h.registrations.sublist (hregistrations.map _) (Nat.le_of_eq hlast.symm)
    · exact h.distinct.sublist
        (((hconnections.map _).append (hwatchers.map _)).append (hregistrations.map _))

end Renews

/-- The next number is in no use. -/
theorem Numbered.nextId_not_mem (h : b.Numbered) : b.nextId ∉ b.numbers :=
  fun hmem => Nat.not_succ_le_self _ (h.bounded _ hmem)

/-- The numbers in use and the next one are all different. -/
theorem Numbered.nodup_of_perm (h : b.Numbered) {numbers : List Nat}
    (hperm : numbers.Perm (b.nextId :: b.numbers)) : numbers.Nodup :=
  hperm.nodup_iff.2 (List.nodup_cons.2 ⟨h.nextId_not_mem, h.distinct⟩)

/-- Behind ascending numbers comes the next one. -/
theorem ascends_append_nextId {numbers : List Nat} (h : Ascends b.lastId numbers) :
    Ascends b.nextId (numbers ++ [b.nextId]) :=
  h.append (Nat.le_succ _) (List.pairwise_singleton _ _) fun n hn => by
    rw [List.mem_singleton.1 hn]
    exact ⟨Nat.lt_succ_self _, Nat.le_refl _⟩

/-- Ascending numbers ascend when a further one is given out elsewhere. -/
theorem ascends_nextId {numbers : List Nat} (h : Ascends b.lastId numbers) :
    Ascends b.nextId numbers :=
  h.sublist (.refl _) (Nat.le_succ _)

/-- Of a table with one entry more those under old numbers are old. -/
theorem mem_of_mem_append {α : Type} (number : α → Nat) {table : List α} {x new : α}
    (hnew : number new = b.nextId) (hx : x ∈ table ++ [new]) (hle : number x ≤ b.lastId) :
    x ∈ table := by
  refine (List.mem_append.1 hx).resolve_right fun hx => ?_
  rw [List.mem_singleton.1 hx, hnew] at hle
  exact Nat.not_succ_le_self _ hle

/-- Connecting a handler. -/
theorem renews_connect (b : Binding) (key : String) (handler : Handler) :
    b.Renews (b.connect key handler) where
  lastId := Nat.le_succ _
  connections _ hc hle := mem_of_mem_append (·.seq) rfl hc hle
  watchers _ hx _ := hx
  registrations _ hr _ := hr
  numbered h := by
    have hmap : (b.connect key handler).connections.map (·.seq) =
        b.connections.map (·.seq) ++ [b.nextId] := List.map_append
    refine ⟨?_, ascends_nextId h.watchers, ascends_nextId h.registrations, ?_⟩
    · rw [hmap]
      exact ascends_append_nextId h.connections
    · refine h.nodup_of_perm ?_
      show (_ ++ b.watchers.map (·.seq) ++ b.registrations.map (·.id)).Perm _
      rw [hmap]
      unfold numbers
      simp only [List.append_assoc]
      exact List.perm_middle

/-- Adding a watcher. -/
theorem renews_watch (b : Binding) (watch : Watch) : b.Renews (b.watch watch) where
  lastId := Nat.le_succ _
  connections _ hc _ := hc
  watchers _ hx hle := mem_of_mem_append (·.seq) rfl hx hle
  registrations _ hr _ := hr
  numbered h := by
    have hmap : (b.watch watch).watchers.map (·.seq) =
        b.watchers.map (·.seq) ++ [b.nextId] := List.map_append
    refine ⟨ascends_nextId h.connections, ?_, ascends_nextId h.registrations, ?_⟩
    · rw [hmap]
      exact ascends_append_nextId h.watchers
    · refine h.nodup_of_perm ?_
      unfold numbers
      rw [hmap, ← List.append_assoc, List.append_assoc (_ ++ _)]
      exact List.perm_middle

/-- Registering what a subscription would release. -/
theorem renews_register (b : Binding) (connections : List (ObjectId × SubscriptionId))
    (deep : Option DeepId) : b.Renews (b.register connections deep) where
  lastId := Nat.le_succ _
  connections _ hc _ := hc
  watchers _ hx _ := hx
  registrations _ hr hle := mem_of_mem_append (·.id) rfl hr hle
  numbered h := by
    have hmap : (b.register connections deep).registrations.map (·.id) =
        b.registrations.map (·.id) ++ [b.nextId] := List.map_append
    refine ⟨ascends_nextId h.connections, ascends_nextId h.watchers, ?_, ?_⟩
    · rw [hmap]
      exact ascends_append_nextId h.registrations
    · refine h.nodup_of_perm ?_
      unfold numbers
      rw [hmap, ← List.append_assoc]
      exact List.perm_append_singleton _ _

end Binding

namespace Model

variable {m m' : Model} {o : ObjectId}

/-! ## The binding of every object -/

/-- The binding of an object, a new one if it has none. -/
def bindingOf (m : Model) (o : ObjectId) : Binding := (m.binding? o).getD {}

/-- The connections are those of the binding. -/
theorem connectionsOf_eq (m : Model) (o : ObjectId) :
    m.connectionsOf o = (m.bindingOf o).connections := by
  unfold connectionsOf bindingOf
  cases m.binding? o <;> rfl

/-- The watchers are those of the binding. -/
theorem watchersOf_eq (m : Model) (o : ObjectId) :
    m.watchersOf o = (m.bindingOf o).watchers := by
  unfold watchersOf bindingOf
  cases m.binding? o <;> rfl

/-- The registrations are those of the binding. -/
theorem registrationsOf_eq (m : Model) (o : ObjectId) :
    m.registrationsOf o = (m.bindingOf o).registrations := by
  unfold registrationsOf bindingOf
  cases m.binding? o <;> rfl

/-- The last number is that of the binding. -/
theorem lastIdOf_eq (m : Model) (o : ObjectId) : m.lastIdOf o = (m.bindingOf o).lastId := by
  unfold lastIdOf bindingOf
  cases m.binding? o <;> rfl

/-- A change of a binding changes that binding, if there is one. -/
theorem bindingOf_modifyBinding (m : Model) (o : ObjectId) (f : Binding → Binding) (p : ObjectId) :
    (m.modifyBinding o f).bindingOf p =
      if p = o ∧ m.isBound p = true then f (m.bindingOf p) else m.bindingOf p := by
  unfold bindingOf isBound
  rw [binding?_modifyBinding]
  cases m.binding? p with
  | none => simp
  | some b => by_cases hp : p = o <;> simp [hp]

/-- An object of the model has the binding that it is given. -/
theorem binding?_modifyObject (m : Model) (o : ObjectId) (b : Binding) (p : ObjectId) :
    (m.modifyObject o fun x => { x with binding := some b }).binding? p =
      if p = o ∧ p < m.objects.size then some b else m.binding? p :=
  read_modifyObject_of_put (·.bind DataObject.binding) (fun _ _ => by rfl) o

/-- Giving an object a binding leaves all bindings as they are. -/
theorem bindingOf_ensureBinding (m : Model) (o p : ObjectId) :
    (m.ensureBinding o).bindingOf p = m.bindingOf p := by
  unfold bindingOf
  rw [binding?_ensureBinding]
  split
  · cases m.binding? p <;> rfl
  · rfl

/-- Whether the numbers of every object's binding are in order. -/
def Numbered (m : Model) : Prop := ∀ o, (m.bindingOf o).Numbered

/-- What a change makes of the bindings of a model: none is lost or restricted differently, links
lead to bindings, and tables are renewed. -/
structure Renews (m m' : Model) : Prop where
  /-- No object is lost. -/
  size : m.objects.size ≤ m'.objects.size
  /-- Bindings are kept. -/
  isBound : ∀ o, m.isBound o = true → m'.isBound o = true
  /-- A binding tells of changes of the same keys. -/
  keysOf : ∀ o, m.isBound o = true → m'.keysOf o = m.keysOf o
  /-- A link that was not there leads to an object with a binding. -/
  linkOf : ∀ o p, m'.linkOf o = some p → m.linkOf o = some p ∨ m'.isBound p = true
  /-- The tables of every binding are renewed. -/
  bindings : ∀ o, (m.bindingOf o).Renews (m'.bindingOf o)

namespace Renews

/-- Any number of changes is one. -/
theorem steady : Steady Renews where
  refl _ := ⟨Nat.le_refl _, fun _ h => h, fun _ _ => rfl, fun _ _ => .inl,
    fun _ => Binding.Renews.steady.refl _⟩
  trans h h' := {
    size := Nat.le_trans h.size h'.size
    isBound := fun o hb => h'.isBound o (h.isBound o hb)
    keysOf := fun o hb => (h'.keysOf o (h.isBound o hb)).trans (h.keysOf o hb)
    linkOf := fun o p hop => (h'.linkOf o p hop).elim
      (fun hop => (h.linkOf o p hop).imp_right (h'.isBound p)) .inr
    bindings := fun o => Binding.Renews.steady.trans (h.bindings o) (h'.bindings o) }

/-- The numbers stay in order. -/
theorem numbered (h : m.Renews m') (hn : m.Numbered) : m'.Numbered :=
  fun o => (h.bindings o).numbered (hn o)

/-- Links go on to lead to bindings. -/
theorem linked (h : m.Renews m') (hl : m.Linked) : m'.Linked := hl.of_links h.isBound h.linkOf

/-- Numbers are given out in order. -/
theorem lastIdOf (h : m.Renews m') (o : ObjectId) : m.lastIdOf o ≤ m'.lastIdOf o := by
  rw [lastIdOf_eq, lastIdOf_eq]
  exact (h.bindings o).lastId

/-- A handler that was connected is found under its number if and only if it still is. -/
theorem connected_iff (h : m.Renews m') (hn : m.Numbered) {c : Connection}
    (hc : c ∈ m.connectionsOf o) :
    m'.isConnected o ⟨c.key, c.seq⟩ = true ↔ c ∈ m'.connectionsOf o := by
  refine ⟨fun hconnected => ?_, isConnected_of_mem⟩
  rw [connectionsOf_eq] at hc
  obtain ⟨c', hc', hseq⟩ := List.any_eq_true.1 hconnected
  have hmem := (mem_handlersOf.1 hc').1
  have heq : c'.seq = c.seq := beq_iff_eq.1 hseq
  have hle := (hn o).connections.bounded c.seq (List.mem_map_of_mem hc)
  have hold := (h.bindings o).connections c' (connectionsOf_eq m' o ▸ hmem) (heq ▸ hle)
  obtain rfl := (hn o).connections.eq_of_number hold hc heq
  exact hmem

/-- A watcher that was registered is found under its number if and only if it still is. -/
theorem watching_iff (h : m.Renews m') (hn : m.Numbered) {x : Watcher}
    (hx : x ∈ m.watchersOf o) : m'.isWatching o x.seq = true ↔ x ∈ m'.watchersOf o := by
  refine ⟨fun hwatching => ?_, fun hmem => List.any_eq_true.2 ⟨x, hmem, beq_self_eq_true x.seq⟩⟩
  rw [watchersOf_eq] at hx
  obtain ⟨x', hx', hseq⟩ := List.any_eq_true.1 hwatching
  have heq : x'.seq = x.seq := beq_iff_eq.1 hseq
  have hle := (hn o).watchers.bounded x.seq (List.mem_map_of_mem hx)
  have hold := (h.bindings o).watchers x' (watchersOf_eq m' o ▸ hx') (heq ▸ hle)
  obtain rfl := (hn o).watchers.eq_of_number hold hx heq
  exact hx'

/-! ## What renews a model -/

/-- A change of a binding's tables. -/
theorem modifyBinding {f : Binding → Binding} (hf : ∀ b, Binding.Renews b (f b))
    (hkeys : ∀ b, (f b).keys = b.keys) (hparent : ∀ b, (f b).parent = b.parent) (m : Model)
    (o : ObjectId) : m.Renews (m.modifyBinding o f) where
  size := Nat.le_of_eq (size_modifyObject m o _).symm
  isBound p hb := by rwa [isBound_modifyBinding]
  keysOf p _ := keysOf_modifyBinding hkeys m o p
  linkOf p q hpq := by
    rw [linkOf_modifyBinding hparent] at hpq
    exact .inl hpq
  bindings p := by
    rw [bindingOf_modifyBinding]
    split
    · exact hf _
    · exact Binding.Renews.steady.refl _

/-- Taking entries out of the tables of a binding. -/
theorem of_sheds {f : Binding → Binding} (hf : Binding.Sheds f) (m : Model) (o : ObjectId) :
    m.Renews (m.modifyBinding o f) :=
  .modifyBinding (fun b => .of_sublists (hf.connections b) (hf.watchers b) (hf.registrations b)
    (hf.lastId b)) hf.keys hf.parent m o

/-- A change beside the tables: it may make objects and bindings, and link bindings to others. -/
theorem of_tables (hsize : m.objects.size ≤ m'.objects.size)
    (hbound : ∀ o, m.isBound o = true → m'.isBound o = true)
    (hkeys : ∀ o, m.isBound o = true → m'.keysOf o = m.keysOf o)
    (hlinks : ∀ o p, m'.linkOf o = some p → m.linkOf o = some p ∨ m'.isBound p = true)
    (htables : ∀ o, ∃ parent keys, m'.bindingOf o = { m.bindingOf o with parent, keys }) :
    m.Renews m' where
  size := hsize
  isBound := hbound
  keysOf := hkeys
  linkOf := hlinks
  bindings o := by
    obtain ⟨parent, keys, h⟩ := htables o
    rw [h]
    exact .of_sublists (.refl _) (.refl _) (.refl _) rfl

/-- A change that leaves all bindings as they are. -/
theorem of_bindings (hsize : m.objects.size ≤ m'.objects.size)
    (h : ∀ o, m'.binding? o = m.binding? o) : m.Renews m' := by
  have hbound (o : ObjectId) : m'.isBound o = m.isBound o := by
    unfold Model.isBound
    rw [h]
  refine .of_tables hsize (fun o hb => hbound o ▸ hb) (fun o _ => ?_) (fun o p hop => .inl ?_)
    fun o => ⟨(m.bindingOf o).parent, (m.bindingOf o).keys, ?_⟩
  · unfold Model.keysOf
    rw [h]
  · unfold Model.linkOf at *
    rwa [h] at hop
  · unfold bindingOf
    rw [h]

/-- Giving an object a binding. -/
theorem ensureBinding (m : Model) (o : ObjectId) : m.Renews (m.ensureBinding o) := by
  refine .of_tables (Nat.le_of_eq (size_modifyObject m o _).symm)
    (fun _ hb => isBound_ensureBinding hb o) (fun p _ => ?_) (fun p q hpq => .inl ?_)
    fun p => ⟨_, _, bindingOf_ensureBinding m o p⟩
  · exact keysOf_ensureBinding m o p
  · rwa [linkOf_ensureBinding] at hpq

/-- Replacing the content of an object. -/
theorem setStore (m : Model) (o : ObjectId) (s : Store) : m.Renews (m.setStore o s) :=
  .of_bindings (Nat.le_of_eq (size_modifyObject m o _).symm) (binding?_setStore m o s)

/-- Adding an object. -/
theorem add (m : Model) (s : Store) : m.Renews (m.add s).2 :=
  .of_bindings (Nat.le_of_lt (Nat.lt_of_lt_of_eq (Nat.lt_succ_self _) (size_add m s).symm))
    (binding?_add m s)

/-- Setting or clearing the enclosing scope of an object. -/
theorem setParent {parent : Option ObjectId} (h : ∀ p, parent = some p → m.isBound p = true)
    (o : ObjectId) : m.Renews (Model.setParent o parent m).2 := by
  unfold Model.setParent
  split
  · exact steady.refl m
  · show m.Renews (m.modifyBinding o fun b => { b with parent })
    have hbound (p : ObjectId) := isBound_modifyBinding m o (fun b => { b with parent }) p
    refine .of_tables (Nat.le_of_eq (size_modifyObject m o _).symm) (fun p hb => ?_) (fun p _ => ?_)
      (fun p q hpq => ?_) fun p => ?_
    · rwa [hbound]
    · exact keysOf_modifyBinding (fun _ => by rfl) m o p
    · rw [hbound]
      unfold Model.linkOf at hpq ⊢
      rw [binding?_modifyBinding] at hpq
      split at hpq
      · cases hb : m.binding? p with
        | none =>
          rw [hb] at hpq
          cases hpq
        | some b =>
          rw [hb] at hpq
          exact .inr (h q hpq)
      · exact .inl hpq
    · rw [bindingOf_modifyBinding]
      split
      · exact ⟨_, _, rfl⟩
      · exact ⟨_, _, rfl⟩

/-- Giving an object its first binding. -/
theorem bind (v : Value) (keys : Option (List String)) (m : Model) :
    m.Renews (Model.bind v keys m).2 := by
  unfold Model.bind
  cases v.object? with
  | none => exact steady.refl m
  | some o =>
    dsimp only
    rw [Edit.bind_of_ok (e := get) rfl]
    by_cases hb : m.isBound o = true
    · rw [if_pos hb]
      exact steady.refl m
    · rw [if_neg hb]
      have hnone : m.binding? o = none := Option.not_isSome_iff_eq_none.1 hb
      -- Only the object that had no binding has another one.
      have hothers {p : ObjectId} (hp : m.isBound p = true) : ¬ (p = o ∧ p < m.objects.size) :=
        fun h => hb (h.1 ▸ hp)
      show m.Renews (m.modifyObject o fun x => { x with binding := some { keys } })
      refine .of_tables (Nat.le_of_eq (size_modifyObject m o _).symm) (fun p hp => ?_)
        (fun p hp => ?_) (fun p q hpq => ?_) fun p => ?_
      · unfold Model.isBound
        rwa [binding?_modifyObject, if_neg (hothers hp)]
      · unfold Model.keysOf
        rw [binding?_modifyObject, if_neg (hothers hp)]
      · unfold Model.linkOf at *
        rw [binding?_modifyObject] at hpq
        split at hpq
        · cases hpq
        · exact .inl hpq
      · unfold bindingOf
        rw [binding?_modifyObject]
        split
        · rename_i h
          rw [h.1, hnone]
          exact ⟨none, keys, rfl⟩
        · exact ⟨_, _, rfl⟩

end Renews

/-- All that subscribes or releases renews the tables. -/
theorem renews_alters : Alters Renews where
  steady := Renews.steady
  ensureBinding := Renews.ensureBinding
  watch m o w := .modifyBinding (·.renews_watch w) (fun _ => rfl) (fun _ => rfl) m o
  unwatch m o seq := .of_sheds (Binding.sheds_unwatch seq) m o
  setTree _ _ _ := .of_bindings (Nat.le_refl _) fun _ => rfl
  addDeep _ _ := .of_bindings (Nat.le_refl _) fun _ => rfl
  connect m o key handler := .modifyBinding (·.renews_connect key handler) (fun _ => rfl)
    (fun _ => rfl) m o
  disconnect m o id := .of_sheds (Binding.sheds_disconnect id) m o
  register m o connections deep := .modifyBinding (·.renews_register connections deep)
    (fun _ => rfl) (fun _ => rfl) m o
  unregister m o id := .of_sheds (Binding.sheds_unregister id) m o
  unregisterAll m o := .of_sheds Binding.sheds_registrations m o
  clear m o := .of_sheds Binding.sheds_handlers m o

/-- Holding other things. -/
theorem renews_holds (m : Model) (holds : List Hold) : m.Renews { m with holds } :=
  .of_bindings (Nat.le_refl _) fun _ => rfl

/-- A model without objects has given out no number. -/
theorem numbered_empty : Numbered {} := fun _ => Binding.numbered_new none none

/-- A model without objects has no links. -/
theorem linked_empty : Linked {} := fun _ _ h => by cases h

end Model

end LiveScope
