import LiveScope.Proofs.Model.Renewal
import LiveScope.Proofs.Release.Undoing

/-!
# Tables of subscribers

A binding keeps its connections in one list, in the order of connection. By key they make up a table
(`Binding.targets`) that each connection is appended to under its key, and from which a key goes
with its last handler (`Binding.targets_disconnect`). `Binding.Kept` is what these tables are like
in every run.

To release under a number that is in use takes out the one entry with the number. A number that is
out of use is out of use for ever, whatever is subscribed later (`Model.Renews.disconnect_stale` and
the lemmas beside it).
-/

namespace LiveScope

/-- The handlers of each key that has some, with their numbers, in the order of connection. -/
abbrev Targets : Type := Dict (List (Nat × Handler))

namespace Targets

/-- Appends a handler to those of its key. -/
def connect (t : Targets) (key : String) (seq : Nat) (handler : Handler) : Targets :=
  t.insert key ((t.find? key).getD [] ++ [(seq, handler)])

/-- Removes a handler from those of its key, and the key with the last of them; says whether there
was one. -/
def disconnect (t : Targets) (id : SubscriptionId) : Bool × Targets :=
  match t.find? id.key with
  | none => (false, t)
  | some handlers =>
    let rest := handlers.filter (·.1 != id.seq)
    (rest.length != handlers.length, if rest.isEmpty then t.erase id.key else t.insert id.key rest)

/-- A connection changes what is found at its key only. -/
theorem find?_connect (t : Targets) (key : String) (seq : Nat) (handler : Handler) (k : String) :
    (t.connect key seq handler).find? k =
      if k = key then some ((t.find? key).getD [] ++ [(seq, handler)]) else t.find? k :=
  Dict.find?_insert t key _ k

/-- What a table has for a key with the given handlers: nothing if there are none. -/
def entry (handlers : List (Nat × Handler)) : Option (List (Nat × Handler)) :=
  if handlers = [] then none else some handlers

/-- The handlers of a key that is not in a table are none. -/
theorem getD_entry (handlers : List (Nat × Handler)) : (entry handlers).getD [] = handlers := by
  unfold entry
  split
  · rename_i h
    exact h.symm
  · rfl

/-- A removal changes what is found at its key only. -/
theorem find?_disconnect (t : Targets) (id : SubscriptionId) (k : String) :
    (t.disconnect id).2.find? k =
      if k = id.key then entry (((t.find? id.key).getD []).filter (·.1 != id.seq))
      else t.find? k := by
  unfold disconnect
  cases ht : t.find? id.key with
  | none =>
    dsimp only
    split
    · rename_i hk
      rw [hk, ht]
      rfl
    · rfl
  | some handlers =>
    dsimp only [Option.getD_some]
    unfold entry
    split
    · rename_i hempty
      rw [Dict.find?_erase, if_pos (List.isEmpty_iff.1 hempty)]
    · rename_i hrest
      rw [Dict.find?_insert, if_neg (mt List.isEmpty_iff.2 hrest)]

/-- The numbers of all handlers. -/
def numbers (t : Targets) : List Nat := t.values.flatMap (·.map (·.1))

end Targets

namespace Binding

variable {b b' : Binding} {id : SubscriptionId} {key : String}

/-- The connections of a binding by their keys. -/
def targets (b : Binding) : Targets :=
  b.connections.foldl (fun t c => t.connect c.key c.seq c.handler) Dict.empty

/-- The handlers of a key in the table are its connections, and a key without any is not in the
table. -/
theorem find?_targets (b : Binding) (key : String) :
    b.targets.find? key = Targets.entry ((b.handlersOf key).map fun c => (c.seq, c.handler)) := by
  unfold targets handlersOf
  generalize b.connections = cs
  -- From the first connection to the last, since each is appended.
  induction cs using List.reverseRecOn with
  | nil => rfl
  | append_singleton cs c ih =>
    rw [List.foldl_append, List.filter_append, List.map_append]
    refine (Targets.find?_connect _ c.key c.seq c.handler key).trans ?_
    by_cases hkey : key = c.key
    · subst hkey
      rw [if_pos rfl, ih, Targets.getD_entry]
      simp [Targets.entry]
    · rw [if_neg hkey, ih]
      simp [Ne.symm hkey]

/-- To remove a connection, its handler is removed from the table. -/
theorem targets_disconnect (b : Binding) (id : SubscriptionId) :
    (b.disconnect id).targets = (b.targets.disconnect id).2 := by
  refine Dict.eq_of_find? fun key => ?_
  rw [Targets.find?_disconnect, find?_targets, find?_targets, find?_targets, Targets.getD_entry]
  unfold handlersOf disconnect
  dsimp only
  rw [List.filter_map, List.filter_filter, List.filter_filter]
  split
  · rename_i hkey
    subst hkey
    congr 2
    refine List.filter_congr fun c _ => ?_
    by_cases hc : c.key = id.key
    · simp [hc, bne]
    · simp [beq_eq_false_iff_ne.2 hc]
  · rename_i hkey
    congr 2
    refine List.filter_congr fun c _ => ?_
    by_cases hc : c.key = key
    · simp [hc, hkey]
    · simp [hc]

/-- A connection can be removed if the table has its handler. -/
theorem any_handlersOf (b : Binding) (id : SubscriptionId) :
    (b.handlersOf id.key).any (·.seq == id.seq) = (b.targets.disconnect id).1 := by
  have hfilter (l : List (Nat × Handler)) :
      ((l.filter (·.1 != id.seq)).length != l.length) = l.any (·.1 == id.seq) := by
    rw [Bool.eq_iff_iff, bne_iff_ne, Ne, List.length_filter_eq_length_iff, List.any_eq_true]
    simp
  have hmap : (b.handlersOf id.key).any (·.seq == id.seq) =
      ((b.handlersOf id.key).map fun c => (c.seq, c.handler)).any (·.1 == id.seq) := by
    rw [List.any_map]
    rfl
  unfold Targets.disconnect
  rw [find?_targets, hmap]
  generalize (b.handlersOf id.key).map (fun c => (c.seq, c.handler)) = handlers
  unfold Targets.entry
  split
  · rename_i hnone
    split at hnone
    · rename_i hempty
      rw [hempty]
      rfl
    · cases hnone
  · rename_i hsome
    split at hsome
    · cases hsome
    · rw [← Option.some.inj hsome]
      exact (hfilter handlers).symm

/-! ## Tables in order -/

/-- What the tables of a binding are like in every run. -/
structure Kept (b : Binding) : Prop where
  /-- No number is used twice in the three tables. -/
  distinct : (b.targets.numbers ++ b.watchers.map (·.seq) ++ b.registrations.map (·.id)).Nodup
  /-- No number is above the last one given out. -/
  bounded : ∀ n ∈ b.targets.numbers ++ b.watchers.map (·.seq) ++ b.registrations.map (·.id),
    n ≤ b.lastId
  /-- Each key in the table has handlers, whose numbers ascend. -/
  handlers : ∀ key handlers, b.targets.find? key = some handlers →
    handlers ≠ [] ∧ (handlers.map (·.1)).Pairwise (· < ·)
  /-- The numbers of the watchers ascend. -/
  watchers : (b.watchers.map (·.seq)).Pairwise (· < ·)

/-- The handlers at a key of the table are the connections of the key. -/
theorem mem_targets_entries {handlers : List (Nat × Handler)}
    (h : (key, handlers) ∈ b.targets.entries) :
    handlers = (b.handlersOf key).map (fun c => (c.seq, c.handler)) ∧ handlers ≠ [] := by
  have hfind : b.targets.find? key = some handlers :=
    Dict.lookup_of_mem b.targets.ascending.nodup_keys h
  rw [find?_targets] at hfind
  unfold Targets.entry at hfind
  split at hfind
  · cases hfind
  · rename_i hne
    obtain rfl := Option.some.inj hfind
    exact ⟨rfl, hne⟩

/-- A number that a handler in the table has belongs to a connection. -/
theorem exists_of_mem_entries {e : String × List (Nat × Handler)} (he : e ∈ b.targets.entries)
    {n : Nat} (hn : n ∈ e.2.map (·.1)) : ∃ c ∈ b.connections, c.key = e.1 ∧ c.seq = n := by
  rw [(mem_targets_entries he).1, List.map_map] at hn
  obtain ⟨c, hc, rfl⟩ := List.mem_map.1 hn
  obtain ⟨hc, hkey⟩ := List.mem_filter.1 hc
  exact ⟨c, hc, beq_iff_eq.1 hkey, rfl⟩

/-- The handlers of each key are in the order of their numbers. -/
theorem Numbered.pairwise_handlersOf (h : b.Numbered) (key : String) :
    ((b.handlersOf key).map (·.seq)).Pairwise (· < ·) :=
  h.connections.ascending.sublist (List.filter_sublist.map _)

/-- The table has the numbers of the connections. -/
theorem Numbered.numbers_targets (h : b.Numbered) :
    b.targets.numbers.Perm (b.connections.map (·.seq)) := by
  have hnodup : b.targets.numbers.Nodup := by
    unfold Targets.numbers Dict.values
    rw [List.flatMap_map, List.nodup_flatMap]
    refine ⟨fun e he => ?_, ?_⟩
    · rw [(mem_targets_entries he).1, List.map_map]
      exact (h.pairwise_handlersOf e.1).imp Nat.ne_of_lt
    · -- A connection has one key, so that its number is found at this key only.
      refine b.targets.ascending.imp_of_mem fun he he' hlt n hn hn' => ?_
      obtain ⟨c, hc, hkey, hseq⟩ := exists_of_mem_entries he hn
      obtain ⟨c', hc', hkey', hseq'⟩ := exists_of_mem_entries he' hn'
      obtain rfl := h.connections.eq_of_number hc hc' (hseq.trans hseq'.symm)
      rw [← hkey, hkey'] at hlt
      exact String.lt_irrefl _ hlt
  refine (List.perm_ext_iff_of_nodup hnodup (h.connections.ascending.imp Nat.ne_of_lt)).2
    fun n => ?_
  constructor
  · intro hn
    obtain ⟨handlers, hhandlers, hn⟩ := List.mem_flatMap.1 hn
    obtain ⟨e, he, rfl⟩ := List.mem_map.1 hhandlers
    obtain ⟨c, hc, _, rfl⟩ := exists_of_mem_entries he hn
    exact List.mem_map_of_mem hc
  · intro hn
    obtain ⟨c, hc, rfl⟩ := List.mem_map.1 hn
    have hmem : c ∈ b.handlersOf c.key := List.mem_filter.2 ⟨hc, beq_self_eq_true c.key⟩
    have hmap := List.mem_map_of_mem (f := fun c : Connection => (c.seq, c.handler)) hmem
    have hfind := b.find?_targets c.key
    unfold Targets.entry at hfind
    rw [if_neg (List.ne_nil_of_mem hmap)] at hfind
    exact List.mem_flatMap.2 ⟨_, List.mem_map.2 ⟨_, Dict.mem_of_lookup hfind, rfl⟩,
      List.mem_map.2 ⟨_, hmap, rfl⟩⟩

/-- Tables whose numbers are in order are kept by key as well. -/
theorem Numbered.kept (h : b.Numbered) : b.Kept := by
  have hperm : (b.targets.numbers ++ b.watchers.map (·.seq) ++ b.registrations.map (·.id)).Perm
      b.numbers := (h.numbers_targets.append_right _).append_right _
  refine ⟨hperm.nodup_iff.2 h.distinct, fun n hn => h.bounded n (hperm.mem_iff.1 hn),
    fun key handlers hfind => ?_, h.watchers.ascending⟩
  obtain ⟨rfl, hne⟩ := mem_targets_entries (Dict.mem_of_lookup hfind)
  refine ⟨hne, ?_⟩
  rw [List.map_map]
  exact h.pairwise_handlersOf key

end Binding

/-- Of entries in the order of their numbers, one is taken out by its number. -/
theorem Ascends.split {last : Nat} {α : Type} {number : α → Nat} {table : List α}
    (h : Ascends last (table.map number)) {x : α} (hx : x ∈ table) :
    ∃ before after, table = before ++ x :: after ∧
      ∀ keep : α → Bool, keep x = false → (∀ y, keep y = false → number y = number x) →
        table.filter keep = before ++ after := by
  obtain ⟨before, after, rfl⟩ := List.append_of_mem hx
  have hnodup : ((before ++ x :: after).map number).Nodup := h.ascending.imp Nat.ne_of_lt
  refine ⟨before, after, rfl, fun keep hkeep hothers => ?_⟩
  have hkept : ∀ y ∈ before ++ after, keep y = true := by
    intro y hy
    refine Bool.not_eq_false _ ▸ fun hy' => ?_
    rw [(List.perm_middle.map number).nodup_iff, List.map_cons, List.nodup_cons] at hnodup
    exact hnodup.1 (hothers y hy' ▸ List.mem_map_of_mem hy)
  rw [List.filter_append, List.filter_cons_of_neg (by simp [hkeep])]
  rw [List.filter_eq_self.2 fun y hy => hkept y (List.mem_append_left _ hy),
    List.filter_eq_self.2 fun y hy => hkept y (List.mem_append_right _ hy)]

namespace Model

variable {m m' : Model} {o : ObjectId} {n : Nat} {key : String} {id : SubscriptionId}

/-! ## Releasing what is there -/

/-- A handler that is connected is one of the connections. -/
theorem exists_of_isConnected (h : m.isConnected o id = true) :
    ∃ c ∈ m.connectionsOf o, c.key = id.key ∧ c.seq = id.seq := by
  obtain ⟨c, hc, hseq⟩ := List.any_eq_true.1 h
  obtain ⟨hc, hkey⟩ := mem_handlersOf.1 hc
  exact ⟨c, hc, hkey, beq_iff_eq.1 hseq⟩

/-- A binding that is there is changed. -/
theorem bindingOf_modifyBinding_self {f : Binding → Binding} (hb : m.isBound o = true) :
    (m.modifyBinding o f).bindingOf o = f (m.bindingOf o) := by
  rw [bindingOf_modifyBinding, if_pos ⟨rfl, hb⟩]

/-- To disconnect a handler takes its connection out of the table, and nothing else. -/
theorem disconnect_live (hn : m.Numbered) (h : m.isConnected o id = true) :
    (m.disconnect o id).1 = true ∧ ∃ before c after,
      (m.bindingOf o).connections = before ++ c :: after ∧ c.key = id.key ∧ c.seq = id.seq ∧
      (m.disconnect o id).2.bindingOf o =
        { m.bindingOf o with connections := before ++ after } := by
  obtain ⟨c, hc, hkey, hseq⟩ := exists_of_isConnected h
  have hb := isBound_of_mem_connectionsOf hc
  rw [connectionsOf_eq] at hc
  obtain ⟨before, after, hsplit, hfilter⟩ := (hn o).connections.split hc
  refine ⟨h, before, c, after, hsplit, hkey, hseq, (bindingOf_modifyBinding_self hb).trans ?_⟩
  unfold Binding.disconnect
  rw [hfilter _ (by simp [hkey, hseq]) fun y hy => ?_]
  simp only [Bool.not_eq_false', Bool.and_eq_true, beq_iff_eq] at hy
  exact hy.2.trans hseq.symm

/-- To remove a watcher takes it out of the table, and nothing else. -/
theorem unwatch_live (hn : m.Numbered) (h : m.isWatching o n = true) :
    (m.unwatch o n).1 = true ∧ ∃ before x after,
      (m.bindingOf o).watchers = before ++ x :: after ∧ x.seq = n ∧
      (m.unwatch o n).2.bindingOf o = { m.bindingOf o with watchers := before ++ after } := by
  obtain ⟨x, hx, hseq⟩ := List.any_eq_true.1 h
  have hseq := beq_iff_eq.1 hseq
  have hb := isBound_of_mem_elim (·.watchers) hx
  rw [watchersOf_eq] at hx
  obtain ⟨before, after, hsplit, hfilter⟩ := (hn o).watchers.split hx
  refine ⟨h, before, x, after, hsplit, hseq, (bindingOf_modifyBinding_self hb).trans ?_⟩
  unfold Binding.unwatch
  rw [hfilter _ (by simp [hseq]) fun y hy => ?_]
  simp only [bne_eq_false_iff_eq] at hy
  exact hy.trans hseq.symm

/-- To release a registration takes it out of the table, and none else, and undoes what it
recorded. -/
theorem unbind_live (hn : m.Numbered) {r : Registration} (h : m.registration? o n = some r) :
    (m.unbind o n).1 = true ∧ r.id = n ∧ (∃ before after,
      m.registrationsOf o = before ++ r :: after ∧
      (m.unbind o n).2.registrationsOf o = before ++ after) ∧
    ∀ p, p ≠ o → (m.unbind o n).2.registrationsOf p = m.registrationsOf p := by
  have hfind := h
  rw [registration?_eq] at hfind
  have hb := isBound_of_mem_elim (·.registrations) (List.mem_of_find?_eq_some hfind)
  rw [registrationsOf_eq] at hfind
  have hr := List.mem_of_find?_eq_some hfind
  have hid : r.id = n := by simpa using List.find?_some hfind
  obtain ⟨before, after, hsplit, hfilter⟩ := (hn o).registrations.split hr
  rw [unbind_of_some h]
  refine ⟨rfl, hid, ⟨before, after, (registrationsOf_eq m o).trans hsplit, ?_⟩, fun p hp => ?_⟩
  · rw [registrationsOf_undo, registrationsOf_eq, bindingOf_modifyBinding_self hb]
    unfold Binding.unregister
    refine hfilter _ (by simp [hid]) fun y hy => ?_
    simp only [bne_eq_false_iff_eq] at hy
    exact hy.trans hid.symm
  · rw [registrationsOf_undo]
    unfold registrationsOf
    rw [binding?_modifyBinding, if_neg hp]

/-! ## Releasing what is gone -/

/-- What is not connected is not disconnected. -/
theorem disconnect_of_not (h : m.isConnected o id = false) : m.disconnect o id = (false, m) := by
  refine Prod.ext h (modifyBinding_eq_self fun b hb => ?_)
  have hfilter : (b.connections.filter fun c => !(c.key == id.key && c.seq == id.seq)) =
      b.connections := by
    refine List.filter_eq_self.2 fun c hc => ?_
    rw [Bool.not_eq_true', Bool.eq_false_iff]
    intro heq
    obtain ⟨hkey, hseq⟩ := Bool.and_eq_true_iff.1 heq
    refine Bool.eq_false_iff.1 h (List.any_eq_true.2 ⟨c, mem_handlersOf.2 ⟨?_, ?_⟩, hseq⟩)
    · unfold connectionsOf
      rw [hb]
      exact hc
    · exact beq_iff_eq.1 hkey
  unfold Binding.disconnect
  rw [hfilter]

/-- What does not watch is not removed. -/
theorem unwatch_of_not (h : m.isWatching o n = false) : m.unwatch o n = (false, m) := by
  refine Prod.ext h (modifyBinding_eq_self fun b hb => ?_)
  have hfilter : (b.watchers.filter (·.seq != n)) = b.watchers := by
    refine List.filter_eq_self.2 fun x hx => ?_
    rw [bne_iff_ne]
    intro hseq
    refine Bool.eq_false_iff.1 h (List.any_eq_true.2 ⟨x, ?_, beq_iff_eq.2 hseq⟩)
    unfold watchersOf
    rw [hb]
    exact hx
  unfold Binding.unwatch
  rw [hfilter]

namespace Renews

/-- A handler that is gone stays gone, so that its number releases nothing. -/
theorem disconnect_stale (h : m.Renews m') (hle : id.seq ≤ m.lastIdOf o)
    (hgone : m.isConnected o id = false) : m'.disconnect o id = (false, m') := by
  refine disconnect_of_not ?_
  rw [Bool.eq_false_iff] at hgone ⊢
  intro hconnected
  obtain ⟨c, hc, hkey, hseq⟩ := exists_of_isConnected hconnected
  rw [connectionsOf_eq] at hc
  rw [lastIdOf_eq] at hle
  have hold := (h.bindings o).connections c hc (hseq ▸ hle)
  rw [← connectionsOf_eq] at hold
  refine hgone (List.any_eq_true.2 ⟨c, mem_handlersOf.2 ⟨hold, hkey⟩, beq_iff_eq.2 hseq⟩)

/-- A watcher that is gone stays gone, so that its number releases nothing. -/
theorem unwatch_stale (h : m.Renews m') (hle : n ≤ m.lastIdOf o)
    (hgone : m.isWatching o n = false) : m'.unwatch o n = (false, m') := by
  refine unwatch_of_not ?_
  rw [Bool.eq_false_iff] at hgone ⊢
  intro hwatching
  obtain ⟨x, hx, hseq⟩ := List.any_eq_true.1 hwatching
  have hseq' := beq_iff_eq.1 hseq
  rw [watchersOf_eq] at hx
  rw [lastIdOf_eq] at hle
  have hold := (h.bindings o).watchers x hx (hseq' ▸ hle)
  rw [← watchersOf_eq] at hold
  exact hgone (List.any_eq_true.2 ⟨x, hold, hseq⟩)

/-- A registration that is gone stays gone, so that its number releases nothing. -/
theorem unbind_stale (h : m.Renews m') (hle : n ≤ m.lastIdOf o)
    (hgone : m.registration? o n = none) : m'.unbind o n = (false, m') := by
  refine unbind_of_none ?_
  rw [registration?_eq, List.find?_eq_none] at hgone ⊢
  intro r hr hid
  have hid' := beq_iff_eq.1 hid
  rw [registrationsOf_eq] at hr
  rw [lastIdOf_eq] at hle
  have hold := (h.bindings o).registrations r hr (hid' ▸ hle)
  rw [← registrationsOf_eq] at hold
  exact hgone r hold hid

end Renews

end Model

end LiveScope
