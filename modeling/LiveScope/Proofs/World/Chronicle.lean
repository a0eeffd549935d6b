import LiveScope.Proofs.Model.Renewal
import LiveScope.Proofs.World.Hearing

/-!
# Chronicles of runs

A chronicle has the writes of a run and the calls of its clients, in the order in which they were
made (`Deed`). A call comes with the number of the write that it tells of, so that a chronicle also
shows how the dispatches are nested in one another. A run with a chronicle (`Unfolds`) is a run in
which clients write as they like, also while they are told of changes; in between they may
subscribe, release and make objects, as long as nothing that is there changes its content.

A run is looked at from one function and one property of a map that its handlers are connected to.
`Founded` says of a chronicle that the function was never called but by a dispatch of that property
and with the value that the write gave it, and `Awaits` that a handler of it has not been called
since the last write of the property.
-/

namespace LiveScope

/-- The value that an operation on a map gives a key; what is deleted is null. -/
def Operation.put? (k : String) : Operation → Option Value
  | set key v => if key = k then some v else none
  | delete key => if key = k then some .null else none
  | push _ | pop => none

/-- Something that is done in a run. -/
inductive Deed where
  /-- An operation is performed on an object. `before` is the model that it finds. -/
  | wrote (o : ObjectId) (op : Operation) (before : Model)
  /-- A client is told something by the dispatch of a write. `since` is the number of that write, as
  many deeds having come before it. -/
  | told (notice : Notice) (since : Nat)

/-- What was done in a run, the latest deed first. -/
structure Chronicle where
  /-- The deeds. -/
  deeds : List Deed := []
  /-- The number of the write that is told of at the moment. -/
  telling : Nat := 0

namespace World

/-- The client is told something. -/
def enter (n : Notice) (w : World Chronicle) : World Chronicle :=
  { w with client := { w.client with deeds := .told n w.client.telling :: w.client.deeds } }

/-- The client begins to write an object. -/
def beginWrite (o : ObjectId) (op : Operation) (w : World Chronicle) : World Chronicle :=
  { w with client := ⟨.wrote o op w.model :: w.client.deeds, w.client.deeds.length⟩ }

/-- The client goes back to the write that was told of before, if there was one. -/
def resume (telling : Nat) (w : World Chronicle) : World Chronicle :=
  { w with client := { w.client with telling } }

/-- The client writes an object. -/
def write (listen : Listener Chronicle) (o : ObjectId) (op : Operation) (w : World Chronicle) :
    World Chronicle :=
  (op.run listen o (w.beginWrite o op)).resume w.client.telling

end World

/-! ## Maps -/

namespace Operation

variable {m : Model} {o : ObjectId} {op : Operation} {μ : Mutation}

/-- An operation on a map gives one key a value, and tells of that alone. -/
theorem put?_of_map (hmap : (m.store o).isList = false) (h : op.mutation? m o = .ok μ) :
    ∃ key v, μ.announcements = [(key, v)] ∧
      (∀ k, op.put? k = if key = k then some v else none) ∧
      ∀ k, μ.store.get k = if k = key then v else (m.store o).get k := by
  obtain ⟨key, v, hannounced, hop, hget⟩ := mutation?_of_map hmap h
  refine ⟨key, v, hannounced, fun k => ?_, hget⟩
  rcases hop with rfl | ⟨rfl, rfl⟩ <;> rfl

/-- A map allows whatever gives a key a value. -/
theorem exists_mutation? (hmap : (m.store o).isList = false) {k : String} {v : Value}
    (h : op.put? k = some v) : ∃ μ, op.mutation? m o = .ok μ := by
  cases hs : m.store o with
  | list items =>
    rw [hs] at hmap
    cases hmap
  | map entries =>
    unfold mutation?
    cases op with
    | set | delete =>
      rw [hs]
      exact ⟨_, rfl⟩
    | push | pop => cases h

end Operation

/-! ## What a chronicle says of a function and a property -/

section

variable (s : Sink) (r : ObjectId) (k : String)

/-- The value that a deed gives a property. -/
def Deed.put? : Deed → Option Value
  | wrote o op _ => if o = r then op.put? k else none
  | told .. => none

/-- The value that a function is called with by a deed. -/
def Deed.heard? : Deed → Option Value
  | wrote .. => none
  | told n _ => s.heard? n

/-- Whether the latest deed is a call of a function by the dispatch of a write of a property, with
the value that was written; `between` is what was done from the write to the call. -/
def Delivers (v : Value) (between deeds : List Deed) : Prop :=
  ∃ n op m base, deeds = .told n base.length :: (between ++ .wrote r op m :: base) ∧
    s.heard? n = some v ∧ op.put? k = some v

/-- Whether every call of a function was made by the dispatch of a write of a property, with the
value that was written. -/
def Founded (deeds : List Deed) : Prop :=
  ∀ n since before v, .told n since :: before <:+ deeds → s.heard? n = some v →
    ∃ between, Delivers s r k v between (.told n since :: before)

/-- Whether the last write of a property found a handler connected that tells a function, and the
function was not called since. -/
def Awaits (c : Connection) : List Deed → Prop
  | [] => False
  | .wrote o op m :: deeds =>
    if ((Deed.wrote o op m).put? r k).isSome then
      c ∈ m.handlersOf r k ∧ c.handler = .report s
    else Awaits c deeds
  | .told n _ :: deeds => s.heard? n = none ∧ Awaits c deeds

end

variable {s : Sink} {r : ObjectId} {k : String} {deeds : List Deed} {c : Connection}

/-- An operation on the object of a property gives it what it gives the key. -/
theorem Deed.put?_wrote (op : Operation) (m : Model) :
    (wrote r op m).put? r k = op.put? k :=
  if_pos rfl

/-- Before anything is done nobody was called. -/
theorem founded_nil : Founded s r k [] := by
  intro n since before v hsuffix
  cases List.suffix_nil.1 hsuffix

/-- One deed more leaves the calls before founded. -/
theorem Founded.cons (h : Founded s r k deeds) {d : Deed}
    (hd : ∀ v, d.heard? s = some v → ∃ between, Delivers s r k v between (d :: deeds)) :
    Founded s r k (d :: deeds) := by
  intro n since before v hsuffix hv
  rcases List.suffix_cons_iff.1 hsuffix with heq | hsuffix
  · obtain ⟨rfl, rfl⟩ := List.cons.inj heq
    exact hd v hv
  · exact h n since before v hsuffix hv

/-- A deed that calls others leaves the calls founded. -/
theorem Founded.cons_of_none (h : Founded s r k deeds) {d : Deed} (hd : d.heard? s = none) :
    Founded s r k (d :: deeds) := by
  refine h.cons fun v hv => ?_
  rw [hd] at hv
  cases hv

/-- A handler that does not wait any more though the last write found it was called since; this is
its last call. -/
theorem exists_told_of_not_awaits {later earlier : List Deed} {op : Operation} {m : Model}
    {u : Value} (hput : op.put? k = some u) (hlast : ∀ d ∈ later, d.put? r k = none)
    (hc : c ∈ m.handlersOf r k) (hhandler : c.handler = .report s)
    (h : ¬ Awaits s r k c (later ++ .wrote r op m :: earlier)) :
    ∃ recent n since before v, later = recent ++ .told n since :: before ∧
      (∀ d ∈ recent, d.heard? s = none) ∧ s.heard? n = some v := by
  induction later with
  | nil =>
    rw [List.nil_append, Awaits, Deed.put?_wrote, hput] at h
    exact absurd ⟨hc, hhandler⟩ h
  | cons d later ih =>
    have hrest := fun d' hd' => hlast d' (List.mem_cons_of_mem d hd')
    -- The deed is the call that is looked for, or it leaves the handler waiting if it waits.
    by_cases hd : ∃ n since v, d = .told n since ∧ s.heard? n = some v
    · obtain ⟨n, since, v, rfl, hv⟩ := hd
      exact ⟨[], n, since, later, v, rfl, nofun, hv⟩
    have hnone : d.heard? s = none := by
      cases d with
      | wrote => rfl
      | told n since =>
        rw [Option.eq_none_iff_forall_ne_some]
        exact fun v hv => hd ⟨n, since, v, rfl, hv⟩
    have hwaits : ¬ Awaits s r k c (later ++ .wrote r op m :: earlier) := by
      intro hwaits
      refine h ?_
      have hput' := hlast d List.mem_cons_self
      cases d with
      | wrote o' op' m' =>
        rw [List.cons_append, Awaits, hput']
        exact hwaits
      | told n since => exact ⟨hnone, hwaits⟩
    obtain ⟨recent, n, since, before, v, hlater, hrecent, hv⟩ := ih hrest hwaits
    refine ⟨d :: recent, n, since, before, v, by rw [hlater]; rfl, ?_, hv⟩
    intro d' hd'
    rcases List.mem_cons.1 hd' with rfl | hd'
    · exact hnone
    · exact hrecent d' hd'

/-! ## Runs -/

/-- Whether the function of a handler is kept for the handlers of one property, and the binding of
its object tells of the property. -/
structure Model.Reserved (s : Sink) (r : ObjectId) (k : String) (m : Model) : Prop where
  /-- A handler that tells the function is one of the property. -/
  handlers : ∀ o, ∀ c ∈ m.connectionsOf o,
    (o = r ∧ c.key = k ∧ c.handler = .report s) ∨ s.Avoids c.handler
  /-- No deep watch tells it. -/
  unwatched : s.Unwatched m
  /-- Changes of the property are told of. -/
  unrestricted : ∀ keys, m.keysOf r = some keys → keys.contains k = true

/-- From one world to another by writes, each performed with a listener that goes on in the same way
whenever it is told something, and by changes in between that leave the content of all objects and
keep the function for the property. -/
inductive Unfolds (s : Sink) (r : ObjectId) (k : String) :
    World Chronicle → World Chronicle → Prop
  | done (w : World Chronicle) : Unfolds s r k w w
  | write {listen : Listener Chronicle} {o : ObjectId} {op : Operation} {w w' : World Chronicle}
      (reacts : ∀ n u, Unfolds s r k (u.enter n) (listen n u))
      (rest : Unfolds s r k (w.write listen o op) w') : Unfolds s r k w w'
  | change {w w' : World Chronicle} {m : Model} (renews : w.model.Renews m)
      (contents : ∀ o < w.model.objects.size, m.store o = w.model.store o)
      (reserved : w.model.Reserved s r k → m.Reserved s r k)
      (rest : Unfolds s r k { w with model := m } w') : Unfolds s r k w w'

namespace Model.Reserved

variable {m m' : Model}

/-- To rewatch keeps the function for the property. -/
theorem of_rewatches (h : m.Reserved s r k) (hm : m.Rewatches m') : m'.Reserved s r k where
  handlers o c hc := by
    rw [hm.connectionsOf] at hc
    exact h.handlers o c hc
  unwatched := h.unwatched.of_rewatches hm
  unrestricted keys hkeys := by
    rw [hm.keysOf] at hkeys
    exact h.unrestricted keys hkeys

/-- To write an object keeps the function for the property. -/
theorem setStore (h : m.Reserved s r k) (o : ObjectId) (store : Store) :
    (m.setStore o store).Reserved s r k where
  handlers p c hc := by
    rw [connectionsOf_setStore] at hc
    exact h.handlers p c hc
  unwatched := h.unwatched
  unrestricted keys hkeys := by
    rw [keysOf_setStore] at hkeys
    exact h.unrestricted keys hkeys

/-- The property is told of once somebody is connected to it. -/
theorem notifies (h : m.Reserved s r k) (hc : c ∈ m.connectionsOf r) :
    m.notifies r k = true :=
  notifies_of_mem hc h.unrestricted

end Model.Reserved

end LiveScope
