import LiveScope.Proofs.Deep.Members
import LiveScope.Proofs.World.Dispatching

/-!
# Whom a write of a list calls

A write dispatches one announced key after the other; `Announces` is the chain of these dispatches,
with all calls made in them. Which keys of a list are announced is settled apart from which change:
`Operation.announced_or_drops` compares the two. A changed key is announced unless it is an index
that was taken off the end, by taking off the last element or by a smaller length; of such a write
only the length is announced. `Operation.changed_called` is what follows for the handlers.
-/

namespace LiveScope

variable {γ : Type} {listen : Listener γ} {m : Model} {o : ObjectId}

/-- From one world to another by dispatches of announced keys, and the calls made in them; keys that
the binding does not tell of are passed over. -/
inductive Announces (listen : Listener γ) (o : ObjectId) :
    List (String × Value) → World γ → List (Call γ) → World γ → Prop
  | done (w : World γ) : Announces listen o [] w [] w
  | told {key : String} {v : Value} {rest : List (String × Value)} {w w' w'' : World γ}
      {calls calls' : List (Call γ)} (notifies : w.model.notifies o key = true)
      (dispatch : Dispatches listen o key v (w.model.recipients o key) (w.holdHandlers o key)
        calls w')
      (next : Announces listen o rest w' calls' w'') :
      Announces listen o ((key, v) :: rest) w (calls ++ calls') w''
  | untold {key : String} {v : Value} {rest : List (String × Value)} {w w' : World γ}
      {calls : List (Call γ)} (restricted : w.model.notifies o key = false)
      (next : Announces listen o rest w calls w') :
      Announces listen o ((key, v) :: rest) w calls w'

/-- Whether an operation succeeds and makes these calls. -/
def Operation.Calls (listen : Listener γ) (o : ObjectId) (op : Operation) (w : World γ)
    (calls : List (Call γ)) : Prop :=
  ∃ μ w', op.mutation? w.model o = .ok μ ∧
    Announces listen o μ.announcements
      ((w.mapModel (·.setStore o μ.store)).mapModel (·.holdAll μ.holds)) calls w' ∧
    op.run listen o w = w'.mapModel (·.releaseAll μ.holds)

/-! ## Handlers and their turns -/

/-- Whether a call is one of a handler. -/
def Call.IsOf (c : Connection) (call : Call γ) : Prop := call.recipient = .handler c

/-- Whether a call takes a handler off. -/
def Call.Removes (o : ObjectId) (c : Connection) (call : Call γ) : Prop :=
  c ∈ call.before.model.connectionsOf o ∧ c ∉ call.after.model.connectionsOf o

/-- To give up holds changes no table. -/
theorem World.connectionsOf_releaseAll (o : ObjectId) (hs : List Hold) (w : World γ) :
    (w.mapModel (·.releaseAll hs)).model.connectionsOf o = w.model.connectionsOf o :=
  Loose.releaseAll (I := fun w w' : World γ => w'.model.connectionsOf o = w.model.connectionsOf o)
    ⟨fun _ => rfl, fun h h' => h'.trans h⟩ (fun _ _ => rfl) hs w

namespace Dispatches

variable {key : String} {v : Value} {rs : List Recipient} {w w' : World γ} {calls : List (Call γ)}
  {c : Connection}

/-- A handler stays connected unless a call takes it off. -/
theorem connected_or_removed (h : Dispatches listen o key v rs w calls w')
    (hc : c ∈ w.model.connectionsOf o) :
    c ∈ w'.model.connectionsOf o ∨ ∃ call ∈ calls, call.Removes o c := by
  induction h with
  | done => exact .inl hc
  | @called r rs w w' calls _ _ ih =>
    by_cases hafter : c ∈ (r.call listen o key v w).model.connectionsOf o
    · rw [← World.connectionsOf_releaseAll o r.holds] at hafter
      exact (ih hafter).imp_right fun ⟨call, hcall, h⟩ => ⟨call, List.mem_cons_of_mem _ hcall, h⟩
    · exact .inr ⟨_, List.mem_cons_self, hc, hafter⟩
  | @passed r rs w w' calls _ _ ih =>
    rw [← World.connectionsOf_releaseAll o r.holds] at hc
    exact ih hc

/-- A handler that is to have a turn is called unless a call takes it off. -/
theorem called_or_removed (h : Dispatches listen o key v rs w calls w')
    (hc : c ∈ w.model.connectionsOf o) (hturn : .handler c ∈ rs) :
    ∃ call ∈ calls, call.IsOf c ∨ call.Removes o c := by
  induction h with
  | done => cases hturn
  | @called r rs w w' calls _ _ ih =>
    rcases List.mem_cons.1 hturn with rfl | hturn
    · exact ⟨_, List.mem_cons_self, .inl rfl⟩
    by_cases hafter : c ∈ (r.call listen o key v w).model.connectionsOf o
    · rw [← World.connectionsOf_releaseAll o r.holds] at hafter
      obtain ⟨call, hcall, h⟩ := ih hafter hturn
      exact ⟨call, List.mem_cons_of_mem _ hcall, h⟩
    · exact ⟨_, List.mem_cons_self, .inr ⟨hc, hafter⟩⟩
  | @passed r rs w w' calls hgone _ ih =>
    rcases List.mem_cons.1 hturn with rfl | hturn
    · exact absurd hc hgone
    · rw [← World.connectionsOf_releaseAll o r.holds] at hc
      exact ih hc hturn

/-- A handler is called for its key. -/
theorem key_of_called (h : Dispatches listen o key v (m.recipients o key) w calls w')
    {call : Call γ} (hcall : call ∈ calls) (hc : call.IsOf c) : c.key = key := by
  have hmem : .handler c ∈ m.recipients o key := by
    rw [← show call.recipient = .handler c from hc]
    exact h.sublist.subset (List.mem_map_of_mem hcall)
  rcases List.mem_append.1 hmem with hmem | hmem
  · obtain ⟨c', hc', heq⟩ := List.mem_map.1 hmem
    rw [← Recipient.handler.inj heq]
    exact (Model.mem_handlersOf.1 hc').2
  · obtain ⟨_, _, heq⟩ := List.mem_map.1 hmem
    cases heq

end Dispatches

namespace Announces

variable {announcements : List (String × Value)} {w w' : World γ} {calls : List (Call γ)}
  {c : Connection}

/-- A handler is called for a key that is announced. -/
theorem key_of_called (h : Announces listen o announcements w calls w') {call : Call γ}
    (hcall : call ∈ calls) (hc : call.IsOf c) : ∃ a ∈ announcements, a.1 = c.key := by
  induction h with
  | done => cases hcall
  | told _ dispatch _ ih =>
    rcases List.mem_append.1 hcall with hcall | hcall
    · exact ⟨_, List.mem_cons_self, (dispatch.key_of_called hcall hc).symm⟩
    · obtain ⟨a, ha, h⟩ := ih hcall
      exact ⟨a, List.mem_cons_of_mem _ ha, h⟩
  | untold _ _ ih =>
    obtain ⟨a, ha, h⟩ := ih hcall
    exact ⟨a, List.mem_cons_of_mem _ ha, h⟩

/-- A handler of a key that is announced is called unless a call takes it off. -/
theorem called_or_removed (hlisten : ∀ n (u : World γ), u.model.Renews (listen n u).model)
    (h : Announces listen o announcements w calls w') (hopens : w.model.Opens o c.key)
    (hc : c ∈ w.model.connectionsOf o) (hannounced : ∃ a ∈ announcements, a.1 = c.key) :
    ∃ call ∈ calls, call.IsOf c ∨ call.Removes o c := by
  induction h with
  | done =>
    obtain ⟨_, ha, _⟩ := hannounced
    cases ha
  | @told key v rest w w' w'' calls calls' _ dispatch _ ih =>
    by_cases hkey : key = c.key
    · have hturn : .handler c ∈ w.model.recipients o key :=
        List.mem_append_left _ (List.mem_map_of_mem (Model.mem_handlersOf.2 ⟨hc, hkey.symm⟩))
      obtain ⟨call, hcall, h⟩ := dispatch.called_or_removed hc hturn
      exact ⟨call, List.mem_append_left _ hcall, h⟩
    -- The handler's dispatch is a later one, which it lives to see unless it is taken off in this.
    obtain ⟨a, ha, hakey⟩ := hannounced
    have hrest : a ∈ rest := by
      refine (List.mem_cons.1 ha).resolve_left fun h => hkey ?_
      rw [← hakey, h]
    rcases dispatch.connected_or_removed hc with hc' | ⟨call, hcall, h⟩
    · have hrenews : w.model.Renews w'.model :=
        World.renews_steady.trans (World.renews_attends.loose w _)
          (dispatch.within World.renews_steady World.renews_attends hlisten)
      have hkeys := hrenews.keysOf o (Model.isBound_of_mem_connectionsOf hc)
      obtain ⟨call, hcall, h⟩ := ih (fun keys hk => hopens keys (hkeys.symm.trans hk)) hc'
        ⟨a, hrest, hakey⟩
      exact ⟨call, List.mem_append_right _ hcall, h⟩
    · exact ⟨call, List.mem_append_left _ hcall, .inr h⟩
  | @untold key v rest w w' calls restricted _ ih =>
    obtain ⟨a, ha, hakey⟩ := hannounced
    refine ih hopens hc ⟨a, (List.mem_cons.1 ha).resolve_left fun h => ?_, hakey⟩
    -- The key of the handler is not passed over.
    have hkey : c.key = key := by rw [← hakey, h]
    exact Bool.eq_false_iff.1 restricted (hkey ▸ Model.notifies_of_mem hc hopens)

end Announces

/-- What is announced is told of by dispatches, if what is done in them renews the tables. -/
theorem announces_announce (hlisten : ∀ n (u : World γ), u.model.Renews (listen n u).model)
    (announcements : List (String × Value)) {w : World γ} (hn : w.model.Numbered) :
    ∃ calls, Announces listen o announcements w calls
      (Mutation.announce listen o announcements w) := by
  induction announcements generalizing w with
  | nil => exact ⟨[], .done w⟩
  | cons a rest ih =>
    obtain ⟨key, v⟩ := a
    have hrenews : w.model.Renews (w.notify listen o key v).model :=
      World.notify_within World.renews_steady World.renews_attends hlisten o key v w
    obtain ⟨calls', hrest⟩ := ih (hrenews.numbered hn)
    by_cases hkey : w.model.notifies o key = true
    · obtain ⟨calls, hdispatch⟩ := dispatches_notify hn hlisten hkey
      exact ⟨_, .told hkey hdispatch hrest⟩
    · have hsame : w.notify listen o key v = w := if_neg hkey
      show ∃ calls, Announces listen o ((key, v) :: rest) w calls
        (Mutation.announce listen o rest (w.notify listen o key v))
      rw [hsame] at hrest ⊢
      exact ⟨calls', .untold (Bool.eq_false_iff.2 hkey) hrest⟩

/-! ## Keys that change -/

namespace Store

variable {items items' : List Value}

/-- Lists with the same at an index read the same there. -/
theorem get_indexKey_congr {i : Nat} (h : items'[i]?.getD .null = items[i]?.getD .null) :
    (list items').get (indexKey i) = (list items).get (indexKey i) := by
  unfold Store.get
  dsimp only
  rw [if_neg (indexKey_ne_lengthKey i), if_neg (indexKey_ne_lengthKey i), index?_indexKey_eq]
  split
  · exact h
  · rfl

/-- Lists of the same length show it. -/
theorem get_lengthKey_congr (h : items'.length = items.length) :
    (list items').get lengthKey = (list items).get lengthKey := by
  unfold Store.get
  dsimp only
  rw [if_pos rfl, if_pos rfl, h]

end Store

namespace World

/-- Whether an object of another world is in this one with the same content. -/
structure Preserves (o : ObjectId) (w' w : World γ) : Prop where
  /-- No object is lost. -/
  size : w.model.objects.size ≤ w'.model.objects.size
  /-- The object has the same content, if it exists. -/
  store : o < w.model.objects.size → w'.model.store o = w.model.store o

/-- What is preserved any number of times is preserved. -/
theorem preserves_steady (o : ObjectId) : Steady fun w w' : World γ => w'.Preserves o w where
  refl _ := ⟨Nat.le_refl _, fun _ => rfl⟩
  trans h h' := ⟨Nat.le_trans h.size h'.size, fun ho =>
    (h'.store (Nat.lt_of_lt_of_le ho h.size)).trans (h.store ho)⟩

/-- What only rewatches preserves every object. -/
theorem preserves_quiet (o : ObjectId) : Quiet fun w w' : World γ => w'.Preserves o w :=
  fun _ _ hm => ⟨Nat.le_of_eq hm.size.symm, fun _ => hm.store o⟩

end World

namespace Operation

variable {op : Operation} {μ : Mutation} {items : List Value} {key : String}

/-- Whether an operation takes an index off the end of a list: by taking off the last element, or by
a smaller length. -/
def Drops (m : Model) (o : ObjectId) (op : Operation) (key : String) : Prop :=
  (op = pop ∨ ∃ v, op = set Store.lengthKey v) ∧
    ∃ μ i, op.mutation? m o = .ok μ ∧ key = Store.indexKey i ∧
      μ.store.size ≤ i ∧ i < (m.store o).size

/-- A key of a list that reads differently after an operation was announced, or was dropped. -/
theorem announced_or_drops (hs : m.store o = .list items)
    (hspelled : ∀ k, op.key? = some k → k = Store.lengthKey ∨ ∃ i, k = Store.indexKey i)
    (h : op.mutation? m o = .ok μ) (hkey : key = Store.lengthKey ∨ ∃ i, key = Store.indexKey i)
    (hchanged : μ.store.get key ≠ (m.store o).get key) :
    (∃ a ∈ μ.announcements, a.1 = key) ∨ op.Drops m o key := by
  obtain ⟨items', hstore, hreshapes⟩ := reshapes_of_mutation? hs hspelled h
  rw [hs, hstore] at hchanged
  have hdrops (hop : op = pop ∨ ∃ v, op = set Store.lengthKey v) {i : Nat}
      (hi : items'.length ≤ i ∧ i < items.length) : op.Drops m o (Store.indexKey i) :=
    ⟨hop, μ, i, h, rfl, by rw [hstore]; exact hi.1, by rw [hs]; exact hi.2⟩
  generalize μ.announcements = announcements at hreshapes ⊢
  cases hreshapes with
  | @put op i v =>
    -- The length stays, and of the elements all but the announced one.
    rcases hkey with rfl | ⟨j, rfl⟩
    · exact absurd (Store.get_lengthKey_congr List.length_set) hchanged
    by_cases hj : j = i
    · exact .inl ⟨_, List.mem_cons_self, by rw [hj]⟩
    · refine absurd (Store.get_indexKey_congr ?_) hchanged
      rw [List.getElem?_set_ne (Ne.symm hj)]
  | @extend op n length v _ hn =>
    rcases hkey with rfl | ⟨j, rfl⟩
    · exact .inl ⟨_, List.mem_cons_of_mem _ List.mem_cons_self, rfl⟩
    -- Before the new element there is what there was, and nulls where there was nothing; behind it
    -- there was nothing and is nothing.
    rcases Nat.lt_trichotomy j n with hj | rfl | hj
    · refine absurd (Store.get_indexKey_congr ?_) hchanged
      rw [List.getElem?_append_left (by rwa [Store.length_resize]), Store.getElem?_resize,
        if_pos hj]
      rfl
    · exact .inl ⟨_, List.mem_cons_self, rfl⟩
    · refine absurd (Store.get_indexKey_congr ?_) hchanged
      rw [List.getElem?_eq_none (l := items) (by omega), List.getElem?_eq_none]
      rw [List.length_append, Store.length_resize]
      exact hj
  | @cut op n v hop =>
    rcases hkey with rfl | ⟨j, rfl⟩
    · exact .inl ⟨_, List.mem_cons_self, rfl⟩
    refine .inr (hdrops (hop.symm.imp_right fun h => ⟨v, h⟩) ?_)
    rw [Store.length_resize]
    -- Below the new length the elements are the same, behind both lengths there are none.
    refine ⟨Nat.le_of_not_lt fun hj => ?_, Nat.lt_of_not_le fun hj => ?_⟩
    · refine hchanged (Store.get_indexKey_congr ?_)
      rw [Store.getElem?_resize, if_pos hj]
      rfl
    · refine hchanged (Store.get_indexKey_congr ?_)
      rw [Store.getElem?_resize, List.getElem?_eq_none hj]
      split <;> rfl
  | empty => exact absurd rfl hchanged

/-- When indices are dropped nothing but the length is announced. -/
theorem announced_of_drops (hs : m.store o = .list items) (h : op.mutation? m o = .ok μ)
    (hdrops : op.Drops m o key) : ∀ a ∈ μ.announcements, a.1 = Store.lengthKey := by
  obtain ⟨hop, _⟩ := hdrops
  have hspelled : ∀ k, op.key? = some k → k = Store.lengthKey ∨ ∃ i, k = Store.indexKey i := by
    rcases hop with rfl | ⟨v, rfl⟩
    · exact nofun
    · exact fun k hk => .inl (Option.some.inj hk).symm
  obtain ⟨items', _, hreshapes⟩ := reshapes_of_mutation? hs hspelled h
  intro a ha
  generalize μ.announcements = announcements at hreshapes ha
  cases hreshapes with
  | put hput =>
    rcases hop with rfl | ⟨u, rfl⟩
    · rcases hput with hput | hput <;> cases hput
    · have hset := Operation.set.inj (hput.resolve_right nofun)
      exact absurd hset.1.symm (Store.indexKey_ne_lengthKey _)
  | extend hextend =>
    rcases hop with rfl | ⟨u, rfl⟩
    · rcases hextend with hextend | hextend <;> cases hextend
    · have hset := Operation.set.inj (hextend.resolve_right nofun)
      exact absurd hset.1.symm (Store.indexKey_ne_lengthKey _)
  | cut => exact congrArg Prod.fst (List.mem_singleton.1 ha)
  | empty => cases ha

/-- An operation that succeeds makes some calls, if what is done in them renews the tables. -/
theorem exists_calls {listen : Listener γ} {w : World γ} (hn : w.model.Numbered)
    (hlisten : ∀ n (u : World γ), u.model.Renews (listen n u).model)
    (h : op.mutation? w.model o = .ok μ) : ∃ calls, op.Calls listen o w calls := by
  have hobject := object_of_mutation? h
  have hstart : w.model.Renews
      ((w.mapModel (·.setStore o μ.store)).mapModel (·.holdAll μ.holds)).model :=
    World.renews_steady.trans (.setStore w.model o μ.store) (World.renews_attends.loose _ _)
  obtain ⟨calls, hcalls⟩ :=
    announces_announce (o := o) hlisten μ.announcements (hstart.numbered hn)
  refine ⟨calls, μ, _, h, hcalls, ?_⟩
  rw [run_eq, h]
  dsimp only
  unfold Mutation.run World.holding
  rw [hobject]

/-- Where those who are told do not write an object, it is after an operation what the operation
makes of it. -/
theorem store_run {listen : Listener γ} {w : World γ} (hlisten : ∀ n u, (listen n u).Preserves o u)
    (ho : o < w.model.objects.size) (h : op.mutation? w.model o = .ok μ) :
    (op.run listen o w).model.store o = μ.store := by
  have hI := World.preserves_steady (γ := γ) o
  have ha := (World.preserves_quiet (γ := γ) o).attends
  have hannounce (u : World γ) :
      (Mutation.announce listen μ.object μ.announcements u).Preserves o u :=
    hI.foldl μ.announcements
      (fun a _ u => World.notify_within hI ha hlisten μ.object a.1 a.2 u) u
  have hsize : o < (w.model.setStore o μ.store).objects.size := by
    rwa [Model.setStore, Model.size_modifyObject]
  rw [run_eq, h]
  dsimp only
  unfold Mutation.run
  rw [object_of_mutation? h] at hannounce ⊢
  rw [(ha.loose.holding hI hannounce μ.holds _).store hsize]
  exact Model.store_setStore_self ho

end Operation

/-! ## Handlers of keys that change -/

/-- Every handler of a key of a list that reads differently after an operation is called in it,
unless a call takes the handler off, and except where the operation takes the index off the end of
the list: then the handler is not called. -/
theorem Operation.changed_called {listen : Listener History} {w : World History}
    {items : List Value} {op : Operation} {c : Connection} (hn : w.model.Numbered)
    (hlisten : ∀ n u, Moves Request (u.record (.told n)) (listen n u))
    (hwrites : ∀ n u, o < u.model.objects.size → (listen n u).model.store o = u.model.store o)
    (hs : w.model.store o = .list items) (hkeys : w.model.keysOf o = none)
    (hspelled : ∀ k, op.key? = some k → k = Store.lengthKey ∨ ∃ i, k = Store.indexKey i)
    (hc : c ∈ w.model.connectionsOf o)
    (hkey : c.key = Store.lengthKey ∨ ∃ i, c.key = Store.indexKey i)
    (hchanged : (op.run listen o w).model.get o c.key ≠ w.model.get o c.key) :
    ∃ calls, op.Calls listen o w calls ∧
      (op.Drops w.model o c.key → ∀ call ∈ calls, ¬ call.IsOf c) ∧
      (¬ op.Drops w.model o c.key → ∃ call ∈ calls, call.IsOf c ∨ call.Removes o c) := by
  have hrenews n (u : World History) : u.model.Renews (listen n u).model := (hlisten n u).renews
  cases h : op.mutation? w.model o with
  | error fault =>
    rw [run_eq, h] at hchanged
    exact absurd rfl hchanged
  | ok μ =>
    have ho : o < w.model.objects.size := Model.lt_size_of_isList (by rw [hs]; rfl)
    unfold Model.get at hchanged
    rw [store_run (fun n u => ⟨(hrenews n u).size, hwrites n u⟩) ho h] at hchanged
    have hannounced := announced_or_drops hs hspelled h hkey hchanged
    obtain ⟨calls, μ', w', hμ', hannounces, hrun⟩ := exists_calls hn hrenews h
    obtain rfl := Except.ok.inj (h.symm.trans hμ')
    refine ⟨calls, ⟨μ, w', h, hannounces, hrun⟩, fun hdrops call hcall hof => ?_, fun hdrops => ?_⟩
    · -- A call of the handler would be for its key, which is not the length.
      obtain ⟨a, ha, hacall⟩ := hannounces.key_of_called hcall hof
      obtain ⟨_, _, i, _, hi, _⟩ := id hdrops
      have hlength := announced_of_drops hs h hdrops a ha
      exact Store.indexKey_ne_lengthKey i (by rw [← hi, ← hacall, hlength])
    · -- To replace the content leaves the handler connected until the first announcement.
      refine hannounces.called_or_removed hrenews ?_ ?_ (hannounced.resolve_right hdrops)
      · exact Model.opens_of_none ((Model.keysOf_setStore w.model o μ.store o).trans hkeys) c.key
      · show c ∈ (w.model.setStore o μ.store).connectionsOf o
        rwa [Model.connectionsOf_setStore]

/-- A list of one element, with a handler for its index and one for the length. -/
def Model.single : Model :=
  let m := (Model.add {} (.list [.bool true])).2.ensureBinding 0
  let m := (m.connect 0 "0" (.report ⟨1, none⟩)).2
  (m.connect 0 Store.lengthKey (.report ⟨2, none⟩)).2

/-- A run makes it. -/
theorem Model.numbered_single : Model.single.Numbered := by
  have hmade : Moves Request ⟨{}, []⟩ ⟨Model.single, []⟩ :=
    .next noting_moves (.add (s := .list [.bool true])) <|
    .next noting_moves (.proxy (o := 0)) <|
    .next noting_moves (.subscribe (o := 0) (k := 1) (s := .connect "0")) <|
    .next noting_moves (.subscribe (o := 0) (k := 2) (s := .connect Store.lengthKey)) <|
    .done _
  exact numbered_of_moves hmade

/-- When the last element is taken off, the handler of the length is called. -/
theorem Operation.changed_called_length :
    (Model.single.Numbered ∧ (∀ n u, Moves Request (u.record (.told n)) (noting n u)) ∧
      Model.single.store 0 = .list [.bool true] ∧ Model.single.keysOf 0 = none ∧
      (pop.run noting 0 ⟨Model.single, []⟩).model.get 0 Store.lengthKey ≠
        Model.single.get 0 Store.lengthKey) ∧
    ∃ calls, pop.Calls noting 0 ⟨Model.single, []⟩ calls ∧
      ∃ call ∈ calls, call.IsOf ⟨2, Store.lengthKey, .report ⟨2, none⟩⟩ ∨
        call.Removes 0 ⟨2, Store.lengthKey, .report ⟨2, none⟩⟩ := by
  have hafter : (pop.run noting 0 ⟨Model.single, []⟩).model.get 0 Store.lengthKey =
      .number (Number.ofNat 0) := rfl
  have hbefore : Model.single.get 0 Store.lengthKey = .number (Number.ofNat 1) := rfl
  have hchanged : (pop.run noting 0 ⟨Model.single, []⟩).model.get 0 Store.lengthKey ≠
      Model.single.get 0 Store.lengthKey := by
    rw [hafter, hbefore]
    exact fun h => absurd (Value.number.inj h) (by decide)
  have hspelled : ∀ k, pop.key? = some k → k = Store.lengthKey ∨ ∃ i, k = Store.indexKey i := nofun
  obtain ⟨calls, hcalls, _, hcalled⟩ := changed_called (w := ⟨Model.single, []⟩) (o := 0)
    (c := ⟨2, Store.lengthKey, .report ⟨2, none⟩⟩) Model.numbered_single noting_moves
    (fun _ _ _ => rfl) rfl rfl hspelled (List.mem_cons_of_mem _ List.mem_cons_self) (.inl rfl)
    hchanged
  refine ⟨⟨Model.numbered_single, noting_moves, rfl, rfl, hchanged⟩, calls, hcalls, hcalled ?_⟩
  exact fun ⟨_, _, i, _, hi, _⟩ => Store.indexKey_ne_lengthKey i hi.symm

/-- Whether an operation changes what is read at the key of a handler and does not call it. -/
def Operation.Misses (listen : Listener History) (o : ObjectId) (op : Operation)
    (w : World History) (c : Connection) : Prop :=
  c ∈ w.model.connectionsOf o ∧
    (op.run listen o w).model.get o c.key ≠ w.model.get o c.key ∧
    (∃ calls, op.Calls listen o w calls) ∧
    ∀ calls, op.Calls listen o w calls → ∀ call ∈ calls, ¬ call.IsOf c

/-- A client that disconnects the handler of the length when it is told of an element. -/
def removing : Listener History := fun n u =>
  match n with
  | .value 1 _ => (u.record (.told n)).mapModel fun m => (m.disconnect 0 ⟨Store.lengthKey, 2⟩).2
  | n => u.record (.told n)

/-- When the last element is taken off, the handler of its index is not called, though null is read
there afterwards. -/
theorem misses_pop :
    Operation.pop.Misses noting 0 ⟨Model.single, []⟩ ⟨1, "0", .report ⟨1, none⟩⟩ := by
  have hmutation : Operation.pop.mutation? Model.single 0 =
      .ok ⟨0, .list [], [Operation.announcedLength 0], [.object 0]⟩ := rfl
  have hafter : (Operation.pop.run noting 0 ⟨Model.single, []⟩).model.get 0 "0" = .null := rfl
  have hbefore : Model.single.get 0 "0" = .bool true := rfl
  refine ⟨List.mem_cons_self, ?_, ?_, fun calls hcalls call hcall hof => ?_⟩
  · rw [hafter, hbefore]
    exact nofun
  · exact Operation.exists_calls Model.numbered_single (fun n u => (noting_moves n u).renews)
      hmutation
  · obtain ⟨μ, w', hμ, hannounces, _⟩ := hcalls
    obtain rfl := Except.ok.inj (hmutation.symm.trans hμ)
    obtain ⟨a, ha, hkey⟩ := hannounces.key_of_called hcall hof
    rw [List.mem_singleton.1 ha] at hkey
    exact absurd hkey (by decide)

/-- The list without its element. -/
def Model.emptied : Model := Model.single.setStore 0 (.list [])

/-- When an element is appended, the handler of the length is not called if that of the index has
disconnected it. -/
theorem misses_push : (Operation.push (.bool true)).Misses removing 0 ⟨Model.emptied, []⟩
    ⟨2, Store.lengthKey, .report ⟨2, none⟩⟩ := by
  have hmoves n u : Moves Request (u.record (.told n)) (removing n u) := by
    unfold removing
    split
    · exact .next noting_moves .disconnect (.done _)
    · exact .done _
  have hn : Model.emptied.Numbered := Model.Renews.numbered (.setStore _ _ _) Model.numbered_single
  have hmutation : (Operation.push (.bool true)).mutation? Model.emptied 0 =
      .ok ⟨0, .list [.bool true], [("0", .bool true), Operation.announcedLength 1], [.object 0]⟩ :=
    rfl
  have hafter : ((Operation.push (.bool true)).run removing 0 ⟨Model.emptied, []⟩).model.get 0
      Store.lengthKey = .number (Number.ofNat 1) := rfl
  have hbefore : Model.emptied.get 0 Store.lengthKey = .number (Number.ofNat 0) := rfl
  refine ⟨List.mem_cons_of_mem _ List.mem_cons_self, ?_, ?_, fun calls hcalls call hcall hof => ?_⟩
  · rw [hafter, hbefore]
    exact fun h => absurd (Value.number.inj h) (by decide)
  · exact Operation.exists_calls hn (fun n u => (hmoves n u).renews) hmutation
  · obtain ⟨μ, w', hμ, hannounces, _⟩ := hcalls
    obtain rfl := Except.ok.inj (hmutation.symm.trans hμ)
    cases hannounces with
    | untold hrestricted => cases hrestricted
    | told _ hfirst hnext =>
      -- The element has one handler, and after its call nobody is left to be told of the length.
      change Dispatches removing 0 _ _ [.handler ⟨1, "0", .report ⟨1, none⟩⟩] _ _ _ at hfirst
      cases hfirst with
      | passed hgone => exact hgone List.mem_cons_self
      | called _ hrest =>
        cases hrest
        cases hnext with
        | untold hrestricted => cases hrestricted
        | told _ hsecond hlast =>
          change Dispatches removing 0 _ _ [] _ _ _ at hsecond
          cases hsecond
          cases hlast
          rw [List.mem_singleton.1 hcall] at hof
          cases hof

/-- A handler may miss a change because its index was dropped, and because it was disconnected
before its turn, though nobody writes meanwhile. -/
theorem Operation.not_changed_called :
    Model.single.store 0 = .list [.bool true] ∧ Model.single.keysOf 0 = none ∧
    Model.emptied.store 0 = .list [] ∧ Model.emptied.keysOf 0 = none ∧
    (∀ n u, (removing n u).model.store 0 = u.model.store 0) ∧
    pop.Misses noting 0 ⟨Model.single, []⟩ ⟨1, "0", .report ⟨1, none⟩⟩ ∧
    (push (.bool true)).Misses removing 0 ⟨Model.emptied, []⟩
      ⟨2, Store.lengthKey, .report ⟨2, none⟩⟩ := by
  refine ⟨rfl, rfl, rfl, rfl, fun n u => ?_, misses_pop, misses_push⟩
  unfold removing
  split
  · exact Model.store_modifyBinding u.model 0 _ 0
  · rfl

end LiveScope
