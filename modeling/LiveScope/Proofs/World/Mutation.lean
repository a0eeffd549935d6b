import LiveScope.Proofs.Model.Edits
import LiveScope.Proofs.Outcome
import LiveScope.Proofs.Store
import LiveScope.World.Dispatch

/-!
# Writes as announced changes

The four operations of a proxy have one form: a new content of the object, and announcements of keys
with values, each of which is told of while some objects are held. `Operation.mutation?` says which
change an operation is, if the object allows it, and `Operation.run_eq` that it is nothing else.
-/

namespace LiveScope

variable {γ : Type}

namespace Act

variable {α β : Type} {e : Edit α} {f : α → Act γ β} {w : World γ} {m : Model}

/-- After an operation that succeeds the next one goes on with its result. -/
theorem bind_of_ok {act : Act γ α} {w' : World γ} {a : α} (h : act w = (.ok a, w')) :
    (act >>= f) w = f a w' := by
  show ExceptT.bindCont f (act w).1 (act w).2 = _
  rw [h]
  rfl

/-- After an operation that fails nothing more is done. -/
theorem bind_of_error {act : Act γ α} {w' : World γ} {fault : Fault}
    (h : act w = (.error fault, w')) : (act >>= f) w = (.error fault, w') := by
  show ExceptT.bindCont f (act w).1 (act w).2 = _
  rw [h]
  rfl

/-- After a change of the model that succeeds an operation goes on with its result. -/
theorem edit_bind_of_ok {a : α} (h : e w.model = (.ok a, m)) :
    (edit e >>= f) w = f a { w with model := m } :=
  bind_of_ok (by unfold edit; rw [h])

/-- After a change of the model that fails an operation does nothing more. -/
theorem edit_bind_of_error {fault : Fault} (h : e w.model = (.error fault, m)) :
    (edit e >>= f) w = (.error fault, { w with model := m }) :=
  bind_of_error (by unfold edit; rw [h])

/-- An operation that does not fail gives something. -/
theorem ok_of_isOk {act : Act γ α} (h : (act w).1.isOk = true) :
    ∃ a, act w = (.ok a, (act w).2) := by
  cases hr : act w with
  | mk r w' =>
    rw [hr] at h
    cases r with
    | ok a => exact ⟨a, rfl⟩
    | error fault => cases h

end Act

namespace Proxy

variable {α : Type} {o : ObjectId} {f : Model → Store → Except Fault (α × Store)} {m : Model}

/-- A content that an object allows replaces the one it has. -/
theorem update_of_ok {a : α} {s : Store} (h : f m (m.store o) = .ok (a, s)) :
    update o f m = (.ok a, m.setStore o s) := by
  unfold update
  refine (Edit.bind_of_ok (e := get) rfl).trans ?_
  refine (Edit.bind_of_ok (a := (a, s)) ?_).trans rfl
  rw [h]
  rfl

/-- What an object does not allow leaves it as it is. -/
theorem update_of_error {fault : Fault} (h : f m (m.store o) = .error fault) :
    update o f m = (.error fault, m) := by
  unfold update
  refine (Edit.bind_of_ok (e := get) rfl).trans (Edit.bind_of_error ?_)
  rw [h]
  rfl

end Proxy

/-- A change of the content of one object, and what is told of it. -/
structure Mutation where
  /-- The object. -/
  object : ObjectId
  /-- Its new content. -/
  store : Store
  /-- The keys told of, with their values, in order. -/
  announcements : List (String × Value)
  /-- What is held while they are told of. -/
  holds : List Hold

namespace Mutation

/-- Tells of one announcement after the other. -/
def announce (listen : Listener γ) (o : ObjectId) (announcements : List (String × Value))
    (w : World γ) : World γ :=
  announcements.foldl (fun w a => w.notify listen o a.1 a.2) w

/-- Some announcements, and others after them. -/
theorem announce_append (listen : Listener γ) (o : ObjectId) (as bs : List (String × Value))
    (w : World γ) :
    announce listen o (as ++ bs) w = announce listen o bs (announce listen o as w) :=
  List.foldl_append

/-- Makes the change and tells of it. -/
def run (listen : Listener γ) (μ : Mutation) (w : World γ) : World γ :=
  (w.mapModel (·.setStore μ.object μ.store)).holding μ.holds
    (announce listen μ.object μ.announcements)

/-- A change with one announcement is told of by one dispatch. -/
theorem run_of_single (listen : Listener γ) {μ : Mutation} {key : String} {v : Value}
    (h : μ.announcements = [(key, v)]) (w : World γ) :
    μ.run listen w =
      (((w.mapModel (·.setStore μ.object μ.store)).mapModel (·.holdAll μ.holds)).notify listen
        μ.object key v).mapModel (·.releaseAll μ.holds) := by
  unfold run World.holding announce
  rw [h]
  rfl

end Mutation

/-- The writing operations of a proxy. -/
inductive Operation where
  | set (key : String) (v : Value)
  | delete (key : String)
  | push (v : Value)
  | pop

namespace Operation

/-- The length of a list as it is told of. -/
def announcedLength (length : Nat) : String × Value :=
  (Store.lengthKey, .number (Number.ofNat length))

/-- What an operation changes about an object, if the object allows it. Taking an element off an
empty list tells nobody. -/
def mutation? (m : Model) (o : ObjectId) : Operation → Except Fault Mutation
  | set key v => do
    let (s, written) ← (m.store o).write m.text key v
    let lengths := match written with
      | .resized length => if key ≠ Store.lengthKey then [announcedLength length] else []
      | .key => []
    return ⟨o, s, (key, v) :: lengths, .object o :: v.holds⟩
  | delete key => do return ⟨o, ← (m.store o).erase key, [(key, .null)], [.object o]⟩
  | push v => do
    let s ← (m.store o).push v
    return ⟨o, s, [(Store.indexKey (s.size - 1), v), announcedLength s.size],
      .object o :: v.holds⟩
  | pop => do
    let (v, s) ← (m.store o).pop
    match v with
    | some v => return ⟨o, s, [announcedLength ((m.setStore o s).store o).size],
        .object o :: v.holds⟩
    | none => return ⟨o, s, [], []⟩

/-- Performs an operation; its result is given to nobody. -/
def run (listen : Listener γ) (o : ObjectId) (op : Operation) (w : World γ) : World γ :=
  match op with
  | set key v => (Proxy.set listen o key v w).2
  | delete key => (Proxy.delete listen o key w).2
  | push v => (Proxy.push listen o v w).2
  | pop => (Proxy.pop listen o w).2

/-- An operation makes the change that it is, or nothing if the object does not allow it. -/
theorem run_eq (listen : Listener γ) (o : ObjectId) (op : Operation) (w : World γ) :
    op.run listen o w = match op.mutation? w.model o with
      | .ok μ => μ.run listen w
      | .error _ => w := by
  cases op with
  | set key v =>
    dsimp only [run, mutation?]
    unfold Proxy.set
    cases h : (w.model.store o).write w.model.text key v with
    | error fault =>
      rw [Act.edit_bind_of_error (Proxy.update_of_error (by rw [h]; rfl))]
      rfl
    | ok r =>
      obtain ⟨s, written⟩ := r
      rw [Act.edit_bind_of_ok (Proxy.update_of_ok (s := s) (a := written) (by rw [h]; rfl))]
      cases written with
      | key => rfl
      | resized n =>
        by_cases hk : key = Store.lengthKey
        · subst hk
          rfl
        · dsimp only [bind, Except.bind]
          rw [if_pos hk, if_pos hk]
          rfl
  | delete key =>
    dsimp only [run, mutation?]
    unfold Proxy.delete
    cases h : (w.model.store o).erase key with
    | error fault =>
      rw [Act.edit_bind_of_error (Proxy.update_of_error (by rw [h]; rfl))]
      rfl
    | ok s =>
      rw [Act.edit_bind_of_ok (Proxy.update_of_ok (s := s) (a := ()) (by rw [h]; rfl))]
      rfl
  | push v =>
    dsimp only [run, mutation?]
    unfold Proxy.push
    cases h : (w.model.store o).push v with
    | error fault =>
      rw [Act.edit_bind_of_error (Proxy.update_of_error (by rw [h]; rfl))]
      rfl
    | ok s =>
      rw [Act.edit_bind_of_ok (Proxy.update_of_ok (s := s) (a := s.size) (by rw [h]; rfl))]
      rfl
  | pop =>
    dsimp only [run, mutation?]
    unfold Proxy.pop
    cases h : (w.model.store o).pop with
    | error fault =>
      rw [Act.edit_bind_of_error (Proxy.update_of_error (by rw [h]))]
      rfl
    | ok r =>
      obtain ⟨v, s⟩ := r
      rw [Act.edit_bind_of_ok (Proxy.update_of_ok (s := s) (a := v) (by rw [h]))]
      cases v with
      | none => rfl
      | some v => rfl

variable {m : Model} {o : ObjectId} {op : Operation} {μ : Mutation}

/-- An operation changes the object it is performed on. -/
theorem object_of_mutation? (h : op.mutation? m o = .ok μ) : μ.object = o := by
  cases op with
  | set | push =>
    obtain ⟨_, _, h⟩ := bind_eq_ok_iff.1 h
    rw [← Except.ok.inj h]
  | delete =>
    obtain ⟨_, _, h⟩ := bind_eq_ok_iff.1 h
    rw [← Except.ok.inj h]
  | pop =>
    obtain ⟨⟨v, s⟩, _, h⟩ := bind_eq_ok_iff.1 h
    cases v with
    | none => rw [← Except.ok.inj h]
    | some => rw [← Except.ok.inj h]

/-- The value that an operation puts into an object. -/
def value? : Operation → Option Value
  | set _ v => some v
  | push v => some v
  | delete _ | pop => none

/-- What is in an object after an operation was there before, or is the value that was put in; and
no other object is told of. -/
theorem object_mem_of_mutation? (h : op.mutation? m o = .ok μ) {q : ObjectId}
    (hq : .object q ∈ μ.store.values ∨ ∃ a ∈ μ.announcements, a.2 = .object q) :
    .object q ∈ (m.store o).values ∨ op.value? = some (.object q) := by
  cases op with
  | set key v =>
    obtain ⟨⟨s, written⟩, hwrite, rfl⟩ := bind_pure_eq_ok_iff.1 h
    rcases hq with hq | ⟨a, ha, hq⟩
    · rcases Store.mem_values_of_write hwrite hq with hq | hq | hq
      · exact .inl hq
      · cases hq
      · exact .inr (congrArg some hq.symm)
    · -- After the value that is written only a length may be announced.
      rcases List.mem_cons.1 ha with rfl | ha
      · exact .inr (congrArg some hq)
      · cases written with
        | key => cases ha
        | resized n =>
          dsimp only at ha
          split at ha
          · obtain rfl := List.mem_singleton.1 ha
            cases hq
          · cases ha
  | delete key =>
    obtain ⟨s, herase, rfl⟩ := bind_pure_eq_ok_iff.1 h
    rcases hq with hq | ⟨a, ha, hq⟩
    · exact .inl ((Store.mem_values_of_erase herase hq).resolve_right fun hq => by cases hq)
    · obtain rfl := List.mem_singleton.1 ha
      cases hq
  | push v =>
    obtain ⟨s, hpush, rfl⟩ := bind_pure_eq_ok_iff.1 h
    rcases hq with hq | ⟨a, ha, hq⟩
    · exact (Store.mem_values_of_push hpush hq).imp_right fun hq => congrArg some hq.symm
    · rcases List.mem_cons.1 ha with rfl | ha
      · exact .inr (congrArg some hq)
      · obtain rfl := List.mem_singleton.1 ha
        cases hq
  | pop =>
    obtain ⟨⟨v, s⟩, hpop, h⟩ := bind_eq_ok_iff.1 h
    cases v with
    | none =>
      obtain rfl := Except.ok.inj h
      rcases hq with hq | ⟨a, ha, _⟩
      · exact .inl (Store.mem_values_of_pop hpop hq)
      · cases ha
    | some v =>
      obtain rfl := Except.ok.inj h
      rcases hq with hq | ⟨a, ha, hq⟩
      · exact .inl (Store.mem_values_of_pop hpop hq)
      · obtain rfl := List.mem_singleton.1 ha
        cases hq

/-- What an operation puts into an object is what it tells of first. -/
theorem head_of_value? {v : Value} (h : op.mutation? m o = .ok μ) (hv : op.value? = some v) :
    ∃ key rest, μ.announcements = (key, v) :: rest := by
  cases op with
  | set key v' =>
    obtain rfl := Option.some.inj hv
    obtain ⟨⟨s, written⟩, _, rfl⟩ := bind_pure_eq_ok_iff.1 h
    exact ⟨key, _, rfl⟩
  | push v' =>
    obtain rfl := Option.some.inj hv
    obtain ⟨s, _, rfl⟩ := bind_pure_eq_ok_iff.1 h
    exact ⟨_, _, rfl⟩
  | delete => cases hv
  | pop => cases hv

/-- What is in an object after an operation was there before, or is what is told of first. -/
theorem object_mem_or_head (h : op.mutation? m o = .ok μ) {q : ObjectId}
    (hq : .object q ∈ μ.store.values) :
    .object q ∈ (m.store o).values ∨ ∃ a ∈ μ.announcements.head?, a.2 = .object q := by
  refine (object_mem_of_mutation? h (.inl hq)).imp_right fun hv => ?_
  obtain ⟨key, rest, hannounced⟩ := head_of_value? h hv
  rw [hannounced]
  exact ⟨_, rfl, rfl⟩

/-- After what is told of first come at most lengths. -/
theorem lengths_of_tail (h : op.mutation? m o = .ok μ) :
    ∀ a ∈ μ.announcements.tail, a.1 = Store.lengthKey ∧ a.2.object? = none ∧
      μ.store.isList = true := by
  intro a ha
  cases op with
  | set key v =>
    obtain ⟨⟨s, written⟩, hwrite, rfl⟩ := bind_pure_eq_ok_iff.1 h
    cases written with
    | key => cases ha
    | resized n =>
      dsimp only [List.tail_cons] at ha
      split at ha
      · obtain rfl := List.mem_singleton.1 ha
        refine ⟨rfl, rfl, (Store.isList_of_write hwrite).trans ?_⟩
        cases hs : m.store o with
        | list => rfl
        | map =>
          rw [hs] at hwrite
          cases (Prod.mk.inj (Except.ok.inj hwrite)).2
      · cases ha
  | delete key =>
    obtain ⟨s, _, rfl⟩ := bind_pure_eq_ok_iff.1 h
    cases ha
  | push v =>
    obtain ⟨s, hpush, rfl⟩ := bind_pure_eq_ok_iff.1 h
    obtain rfl := List.mem_singleton.1 ha
    exact ⟨rfl, rfl, (Store.isList_of_push hpush).trans (Store.list_of_push hpush)⟩
  | pop =>
    obtain ⟨⟨v, s⟩, _, h⟩ := bind_eq_ok_iff.1 h
    cases v with
    | none | some =>
      obtain rfl := Except.ok.inj h
      cases ha

/-- At a key that is told of there is the object that is told of, if it is one, in a list as long as
a machine word can count. -/
theorem object?_get_of_announced (h : op.mutation? m o = .ok μ)
    (hsize : (m.store o).isList = true → (m.store o).size < Nat.pow 2 64) :
    ∀ a ∈ μ.announcements, (μ.store.get a.1).object? = a.2.object? := by
  intro a ha
  -- All but what is told of first are lengths.
  have hlengths : a ∈ μ.announcements.tail → (μ.store.get a.1).object? = a.2.object? := by
    intro htail
    obtain ⟨hkey, hnone, hlist⟩ := lengths_of_tail h a htail
    rw [hkey, hnone, Store.object?_get_lengthKey hlist]
  cases op with
  | set key v =>
    obtain ⟨⟨s, written⟩, hwrite, rfl⟩ := bind_pure_eq_ok_iff.1 h
    rcases List.mem_cons.1 ha with rfl | htail
    · exact Store.object?_get_of_write hwrite
    · exact hlengths htail
  | delete key =>
    obtain ⟨s, herase, rfl⟩ := bind_pure_eq_ok_iff.1 h
    obtain rfl := List.mem_singleton.1 ha
    exact Store.get_of_erase herase
  | push v =>
    obtain ⟨s, hpush, rfl⟩ := bind_pure_eq_ok_iff.1 h
    rcases List.mem_cons.1 ha with rfl | htail
    · exact congrArg Value.object? (Store.get_of_push hpush (hsize (Store.list_of_push hpush)))
    · exact hlengths htail
  | pop =>
    obtain ⟨⟨v, s⟩, hpop, h⟩ := bind_eq_ok_iff.1 h
    cases v with
    | none =>
      obtain rfl := Except.ok.inj h
      cases ha
    | some v =>
      obtain rfl := Except.ok.inj h
      obtain rfl := List.mem_singleton.1 ha
      exact Store.object?_get_lengthKey ((Store.isList_of_pop hpop).trans (Store.list_of_pop hpop))

/-- An operation makes no list of a map, nor the other way round. -/
theorem isList_of_mutation? (h : op.mutation? m o = .ok μ) :
    μ.store.isList = (m.store o).isList := by
  cases op with
  | set key v =>
    obtain ⟨⟨s, written⟩, hwrite, h⟩ := bind_eq_ok_iff.1 h
    rw [← Except.ok.inj h]
    exact Store.isList_of_write hwrite
  | delete key =>
    obtain ⟨s, herase, h⟩ := bind_eq_ok_iff.1 h
    rw [← Except.ok.inj h]
    exact Store.isList_of_erase herase
  | push v =>
    obtain ⟨s, hpush, h⟩ := bind_eq_ok_iff.1 h
    rw [← Except.ok.inj h]
    exact Store.isList_of_push hpush
  | pop =>
    obtain ⟨⟨v, s⟩, hpop, h⟩ := bind_eq_ok_iff.1 h
    cases v with
    | none =>
      rw [← Except.ok.inj h]
      exact Store.isList_of_pop hpop
    | some =>
      rw [← Except.ok.inj h]
      exact Store.isList_of_pop hpop

/-- An operation makes no list of any object that is none, nor the other way round. -/
theorem isList_setStore (h : op.mutation? m o = .ok μ) (p : ObjectId) :
    ((m.setStore o μ.store).store p).isList = (m.store p).isList := by
  rw [Model.store_setStore]
  split
  · rename_i hp
    obtain ⟨rfl, _⟩ := hp
    exact isList_of_mutation? h
  · rfl

/-- An operation on a map changes the value at one key, and tells of that key alone. -/
theorem mutation?_of_map (hmap : (m.store o).isList = false) (h : op.mutation? m o = .ok μ) :
    ∃ key v, μ.announcements = [(key, v)] ∧ (op = .set key v ∨ op = .delete key ∧ v = .null) ∧
      ∀ k, μ.store.get k = if k = key then v else (m.store o).get k := by
  cases hs : m.store o with
  | list items =>
    rw [hs] at hmap
    cases hmap
  | map entries =>
    cases op with
    | set key v =>
      obtain ⟨⟨s, written⟩, hwrite, h⟩ := bind_eq_ok_iff.1 h
      rw [hs] at hwrite
      obtain ⟨rfl, rfl⟩ := Prod.mk.inj (Except.ok.inj hwrite)
      obtain rfl := Except.ok.inj h
      refine ⟨key, v, rfl, .inl rfl, fun k => ?_⟩
      show ((entries.insert key v).find? k).getD .null = _
      rw [Dict.find?_insert]
      split <;> rfl
    | delete key =>
      obtain ⟨s, herase, h⟩ := bind_eq_ok_iff.1 h
      rw [hs] at herase
      obtain rfl := Except.ok.inj herase
      obtain rfl := Except.ok.inj h
      refine ⟨key, .null, rfl, .inr ⟨rfl, rfl⟩, fun k => ?_⟩
      show ((entries.erase key).find? k).getD .null = _
      rw [Dict.find?_erase]
      split <;> rfl
    | push v =>
      obtain ⟨s, hpush, _⟩ := bind_eq_ok_iff.1 h
      rw [hs] at hpush
      cases hpush
    | pop =>
      obtain ⟨_, hpop, _⟩ := bind_eq_ok_iff.1 h
      rw [hs] at hpop
      cases hpop

/-- An operation leaves a property of a map that it does not tell of. -/
theorem get_setStore_of_others {r : ObjectId} {p : String} (hmap : (m.store r).isList = false)
    (h : op.mutation? m o = .ok μ) (hothers : ∀ a ∈ μ.announcements, o = r → a.1 ≠ p) :
    (m.setStore o μ.store).get r p = m.get r p := by
  show ((m.setStore o μ.store).store r).get p = (m.store r).get p
  rw [Model.store_setStore]
  split
  · rename_i hobject
    obtain ⟨rfl, _⟩ := hobject
    obtain ⟨key, v, hannounced, _, hstored⟩ := mutation?_of_map hmap h
    rw [hstored, if_neg]
    rintro rfl
    exact hothers (p, v) (by rw [hannounced]; exact List.mem_cons_self) rfl rfl
  · rfl

end Operation

end LiveScope
