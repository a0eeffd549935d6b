import LiveScope.Proofs.Model.Subscribing
import LiveScope.Proofs.Store.Shapes
import LiveScope.Proofs.World.Reentrance
import LiveScope.Session.Run
import LiveScope.World.Bind

/-!
# What operations make of contents

An operation is performed silently, or through a proxy that tells of it; what is told of it may
perform operations in turn. In a run (`Performs`) every operation is noted when it begins. An
operation through a proxy changes the content before anything is told of it, so that the contents at
the end of a run are what the noted operations, one after the other, make of those at its beginning
(`Performs.follows`).

An operation that an object does not allow, and a write of a name that has no owner, leave all
contents and the client alone (`Operation.act_eq`, `Scope.unchanged_of_owner_error`).
`Performs.contents_refine` puts this together. The silent operations are those of a session that
writes, removes or appends without telling of it (`Session.act_insert`, `Session.act_remove`,
`Session.act_append`).
-/

namespace LiveScope

variable {γ : Type}

/-! ## One operation -/

namespace Operation

/-- An operation that nobody is told of. -/
def silent (o : ObjectId) (op : Operation) : Edit Unit :=
  Proxy.update o fun m s => do return ((), ← s.perform m.text op)

/-- An operation through the proxy of an object, with what it gives: the length after a value was
appended, the value that was taken off, and null else. -/
def act (listen : Listener γ) (o : ObjectId) : Operation → Act γ Value
  | set key v => do
    Proxy.set listen o key v
    return .null
  | delete key => do
    Proxy.delete listen o key
    return .null
  | push v => do return .number (Number.ofNat (← Proxy.push listen o v))
  | pop => Proxy.pop listen o

variable {m : Model} {o : ObjectId} {op : Operation}

/-- What an operation changes the content to. -/
theorem map_store_mutation? (m : Model) (o : ObjectId) (op : Operation) :
    (op.mutation? m o).map (·.store) = (m.store o).perform m.text op := by
  cases op with
  | set key v =>
    dsimp only [mutation?, Store.perform]
    cases (m.store o).write m.text key v with
    | error => rfl
    | ok => rfl
  | delete key =>
    dsimp only [mutation?, Store.perform]
    cases (m.store o).erase key with
    | error => rfl
    | ok => rfl
  | push v =>
    dsimp only [mutation?, Store.perform]
    cases (m.store o).push v with
    | error => rfl
    | ok => rfl
  | pop =>
    dsimp only [mutation?, Store.perform]
    cases (m.store o).pop with
    | error => rfl
    | ok r =>
      obtain ⟨v, s⟩ := r
      cases v with
      | none => rfl
      | some => rfl

/-- A silent operation replaces the content by what the operation makes of it, if that is allowed,
and else does nothing. -/
theorem silent_eq (m : Model) (o : ObjectId) (op : Operation) :
    op.silent o m = match (m.store o).perform m.text op with
      | .ok s => (.ok (), m.setStore o s)
      | .error fault => (.error fault, m) := by
  unfold silent
  cases h : (m.store o).perform m.text op with
  | ok s => exact Proxy.update_of_ok (by rw [h]; rfl)
  | error fault => exact Proxy.update_of_error (by rw [h]; rfl)

end Operation

/-- What an operation through a proxy gives, if it is allowed. -/
def Shape.result : Shape → Operation → Value
  | list q, .push _ => .number (Number.ofNat (q.length + 1))
  | list q, .pop => q.value (q.length - 1)
  | _, _ => .null

/-- An operation through a proxy that an object allows gives what the shape tells, and one that it
does not allow does nothing at all. -/
theorem Operation.act_eq (listen : Listener γ) (o : ObjectId) (op : Operation) (w : World γ) :
    op.act listen o w = match (w.model.store o).perform w.model.text op with
      | .ok _ => (.ok ((w.model.store o).shape.result op), op.run listen o w)
      | .error fault => (.error fault, w) := by
  -- Whether an operation is allowed is decided by the store, before anything is changed or told.
  cases op with
  | set key v =>
    dsimp only [act, Store.perform]
    cases h : (w.model.store o).write w.model.text key v with
    | error fault =>
      exact Act.bind_of_error (Act.edit_bind_of_error (Proxy.update_of_error (by rw [h]; rfl)))
    | ok r =>
      obtain ⟨s, written⟩ := r
      have hset : Proxy.set listen o key v w = (.ok (), (Proxy.set listen o key v w).2) := by
        unfold Proxy.set
        rw [Act.edit_bind_of_ok (Proxy.update_of_ok (s := s) (a := written) (by rw [h]; rfl))]
        cases written with
        | key => rfl
        | resized n =>
          dsimp only
          split
          · rfl
          · rfl
      rw [Act.bind_of_ok hset]
      cases (w.model.store o).shape <;> rfl
  | delete key =>
    dsimp only [act, Store.perform]
    cases h : (w.model.store o).erase key with
    | error fault =>
      exact Act.bind_of_error (Act.edit_bind_of_error (Proxy.update_of_error (by rw [h]; rfl)))
    | ok s =>
      have hdelete : Proxy.delete listen o key w = (.ok (), (Proxy.delete listen o key w).2) := by
        unfold Proxy.delete
        rw [Act.edit_bind_of_ok (Proxy.update_of_ok (s := s) (a := ()) (by rw [h]; rfl))]
        rfl
      rw [Act.bind_of_ok hdelete]
      cases (w.model.store o).shape <;> rfl
  | push v =>
    dsimp only [act, Store.perform]
    cases hstore : w.model.store o with
    | map entries =>
      exact Act.bind_of_error (Act.edit_bind_of_error
        (Proxy.update_of_error (by rw [hstore]; rfl)))
    | list items =>
      have hpush : Proxy.push listen o v w =
          (.ok (items.length + 1), (Proxy.push listen o v w).2) := by
        unfold Proxy.push
        rw [Act.edit_bind_of_ok (Proxy.update_of_ok (s := .list (items ++ [v]))
          (a := (items ++ [v]).length) (by rw [hstore]; rfl)), List.length_append]
        rfl
      rw [Act.bind_of_ok hpush]
      rfl
  | pop =>
    dsimp only [act, Store.perform]
    cases hstore : w.model.store o with
    | map entries =>
      exact Act.edit_bind_of_error (Proxy.update_of_error (by rw [hstore]; rfl))
    | list items =>
      have hlast : (Store.list items).shape.result .pop = items.getLast?.getD .null := by
        rw [List.getLast?_eq_getElem?]
        rfl
      have hpop : Proxy.pop listen o w =
          (.ok (items.getLast?.getD .null), (Proxy.pop listen o w).2) := by
        unfold Proxy.pop
        rw [Act.edit_bind_of_ok (Proxy.update_of_ok (s := .list items.dropLast)
          (a := items.getLast?) (by rw [hstore]; rfl))]
        cases items.getLast? with
        | none => rfl
        | some v => rfl
      rw [hlast]
      exact hpop

/-! ## The silent operations of a session -/

namespace Session

open Play

variable {α β : Type} {e : Edit α} {g : α → Play β} {run : Run} {m : Model}

/-- After a change of the model that succeeds a session goes on with its result. -/
theorem edit_bind_of_ok {a : α} (h : e run.model = (.ok a, m)) :
    (edit e >>= g) run = g a { run with model := m } := by
  have hedit : edit e run = (.ok a, { run with model := m }) := by
    unfold edit Play.act Act.edit
    rw [h]
  show ExceptT.bindCont g (edit e run).1 (edit e run).2 = _
  rw [hedit]
  rfl

/-- After a change of the model that fails a session does nothing more. -/
theorem edit_bind_of_error {fault : Fault} (h : e run.model = (.error fault, m)) :
    (edit e >>= g) run = (.error (.fault fault), { run with model := m }) := by
  have hedit : edit e run = (.error (.fault fault), { run with model := m }) := by
    unfold edit Play.act Act.edit
    rw [h]
  show ExceptT.bindCont g (edit e run).1 (edit e run).2 = _
  rw [hedit]
  rfl

variable (listen : Listener State) (on : String)

/-- To insert a value is to write it silently. -/
theorem act_insert (key : String) (data : Datum) :
    act listen on (.insert key data) = do
      let o ← object on
      let v ← build data
      edit ((Operation.set key v).silent o)
      return .null := by
  unfold act
  refine bind_congr fun o => bind_congr fun v => ?_
  have hsame : (fun (m : Model) (s : Store) => do return ((), (← s.write m.text key v).1)) =
      fun m s => do return ((), ← s.perform m.text (.set key v)) := by
    funext m s
    show _ = ((s.write m.text key v).map (·.1) >>= _)
    cases s.write m.text key v <;> rfl
  rw [hsame]
  rfl

/-- To remove a key is to delete it silently. -/
theorem act_remove (key : String) :
    act listen on (.remove key) = do
      let o ← object on
      edit ((Operation.delete key).silent o)
      return .null :=
  rfl

/-- To append a value is to push it silently, and gives the length after that. -/
theorem act_append (data : Datum) :
    act listen on (.append data) = do
      let o ← object on
      let v ← build data
      edit ((Operation.push v).silent o)
      return number ((← get).model.store o).size := by
  unfold act
  refine bind_congr fun o => bind_congr fun v => ?_
  funext run
  let f (_ : Model) (s : Store) : Except Fault (Snapshot × Store) := do
    let s ← s.push v
    return (number s.size, s)
  have hsilent := Operation.silent_eq run.model o (.push v)
  dsimp only [Store.perform] at hsilent
  show silently o f run = _
  rw [← bind_pure (silently o f)]
  cases h : (run.model.store o).push v with
  | error fault =>
    rw [h] at hsilent
    have hupdate : Proxy.update o f run.model = (.error fault, run.model) :=
      Proxy.update_of_error (by simp only [f, h]; rfl)
    exact (edit_bind_of_error hupdate).trans (edit_bind_of_error hsilent).symm
  | ok s =>
    rw [h] at hsilent
    have hupdate : Proxy.update o f run.model = (.ok (number s.size), run.model.setStore o s) :=
      Proxy.update_of_ok (by simp only [f, h]; rfl)
    refine (edit_bind_of_ok hupdate).trans (.trans ?_ (edit_bind_of_ok hsilent).symm)
    -- Only what is there can be a list, so that the new content is what it has afterwards.
    have hstore : (run.model.setStore o s).store o = s :=
      Model.store_setStore_self (Model.lt_size_of_isList (Store.list_of_push h))
    show (Except.ok (number s.size), _) =
      (Except.ok (number ((run.model.setStore o s).store o).size), _)
    rw [hstore]

end Session

/-! ## Runs of operations -/

/-- The operations that were performed, each with its object, the latest first. -/
abbrev Log : Type := List (ObjectId × Operation)

/-- One more operation. -/
def World.log (o : ObjectId) (op : Operation) (w : World Log) : World Log :=
  { w with client := (o, op) :: w.client }

/-- From one world to another by operations. Who is told of one performs operations in turn. Beside
that the model may change in any way that leaves the contents of the objects that exist, as by
subscribing and releasing. -/
inductive Performs : World Log → World Log → Prop
  | done (w : World Log) : Performs w w
  | silent {w w' : World Log} (o : ObjectId) (op : Operation)
      (rest : Performs ((w.log o op).mapModel fun m => (op.silent o m).2) w') : Performs w w'
  | proxy {listen : Listener Log} {w w' : World Log} (o : ObjectId) (op : Operation)
      (reacts : ∀ n u, Performs u (listen n u))
      (rest : Performs (op.act listen o (w.log o op)).2 w') : Performs w w'
  | beside {w w' : World Log} {m : Model} (size : w.model.objects.size ≤ m.objects.size)
      (store : ∀ o, o < w.model.objects.size → m.store o = w.model.store o)
      (rest : Performs { w with model := m } w') : Performs w w'

/-- What performed operations make of the shape of an object. -/
def Log.shape (o : ObjectId) (s : Shape) (log : Log) : Shape :=
  log.foldr (fun e s => if e.1 = o then s.after e.2 else s) s

/-- Whether the contents are what the operations that were noted since make of those before. -/
def World.Follows (w w' : World Log) : Prop :=
  w.model.objects.size ≤ w'.model.objects.size ∧
    ∃ new : Log, w'.client = new ++ w.client ∧ ∀ o, o < w.model.objects.size →
      (w'.model.store o).shape = new.shape o (w.model.store o).shape

namespace World

/-- What follows what follows, follows. -/
theorem follows_steady : Steady Follows where
  refl w := ⟨Nat.le_refl _, [], rfl, fun _ _ => rfl⟩
  trans h h' := by
    obtain ⟨hsize, new, hclient, hshape⟩ := h
    obtain ⟨hsize', new', hclient', hshape'⟩ := h'
    refine ⟨hsize.trans hsize', new' ++ new, ?_, fun o ho => ?_⟩
    · rw [hclient', hclient, List.append_assoc]
    · rw [hshape' o (ho.trans_le hsize), hshape o ho]
      exact List.foldr_append.symm

/-- A change that leaves the contents needs no operation. -/
theorem follows_of_store {w : World Log} {m : Model}
    (hsize : w.model.objects.size ≤ m.objects.size)
    (hstore : ∀ o, o < w.model.objects.size → m.store o = w.model.store o) :
    Follows w { w with model := m } :=
  ⟨hsize, [], rfl, fun o ho => congrArg Store.shape (hstore o ho)⟩

/-- What is done while a change is told of needs no operation. -/
theorem follows_attends : Attends Follows :=
  Quiet.attends fun _ _ h => follows_of_store h.size.ge fun o _ => h.store o

/-- An operation that is not allowed leaves the contents as its note does. -/
theorem follows_refused {w : World Log} {o : ObjectId} {op : Operation} {fault : Fault}
    (h : (w.model.store o).perform w.model.text op = .error fault) :
    Follows w (w.log o op) := by
  have hshape := Store.shape_perform w.model.text (w.model.store o) op
  rw [h] at hshape
  refine ⟨Nat.le_refl _, [(o, op)], rfl, fun p _ => ?_⟩
  show _ = if o = p then (w.model.store p).shape.after op else (w.model.store p).shape
  split
  · rename_i hp
    subst hp
    unfold Shape.after
    rw [← hshape]
    rfl
  · rfl

/-- An operation that is allowed changes the contents as its note does. -/
theorem follows_performed {w : World Log} {o : ObjectId} {op : Operation} {s : Store}
    (h : (w.model.store o).perform w.model.text op = .ok s) :
    Follows w ((w.log o op).mapModel (·.setStore o s)) := by
  have hshape := Store.shape_perform w.model.text (w.model.store o) op
  rw [h] at hshape
  refine ⟨Nat.le_of_eq (Model.size_modifyObject w.model o _).symm, [(o, op)], rfl,
    fun p hp => ?_⟩
  show ((w.model.setStore o s).store p).shape =
    if o = p then (w.model.store p).shape.after op else (w.model.store p).shape
  rw [Model.store_setStore]
  by_cases heq : o = p
  · subst heq
    rw [if_pos ⟨rfl, hp⟩, if_pos rfl]
    unfold Shape.after
    rw [← hshape]
    rfl
  · rw [if_neg fun h => heq h.1.symm, if_neg heq]

/-- A silent operation does to the contents what it is noted as. -/
theorem follows_silent (w : World Log) (o : ObjectId) (op : Operation) :
    Follows w ((w.log o op).mapModel fun m => (op.silent o m).2) := by
  unfold mapModel
  dsimp only
  rw [op.silent_eq]
  split
  · exact follows_performed ‹_›
  · exact follows_refused ‹_›

/-- An operation through a proxy does to the contents what it is noted as, before anyone is told. -/
theorem follows_act {listen : Listener Log} (hlisten : ∀ n u, Follows u (listen n u))
    (w : World Log) (o : ObjectId) (op : Operation) :
    Follows w (op.act listen o (w.log o op)).2 := by
  have hI := follows_steady
  have hstore := op.map_store_mutation? w.model o
  rw [op.act_eq]
  split
  · rename_i s hperform
    change (w.model.store o).perform w.model.text op = .ok s at hperform
    rw [hperform] at hstore
    rw [op.run_eq]
    split
    · rename_i μ hμ
      change op.mutation? w.model o = .ok μ at hμ
      rw [hμ] at hstore
      obtain rfl := Except.ok.inj hstore
      obtain rfl := Operation.object_of_mutation? hμ
      refine hI.trans (follows_performed hperform) ?_
      refine follows_attends.loose.holding hI (fun u => ?_) _ _
      exact hI.foldl _ (fun a _ u => notify_within hI follows_attends hlisten _ a.1 a.2 u) u
    · rename_i fault hμ
      change op.mutation? w.model o = .error fault at hμ
      rw [hμ] at hstore
      cases hstore
  · exact follows_refused ‹_›

end World

/-- In a run the contents are what the operations that were noted make of them. -/
theorem Performs.follows {w w' : World Log} (h : Performs w w') : w.Follows w' := by
  have hI := World.follows_steady
  induction h with
  | done w => exact hI.refl w
  | silent o op _ ih => exact hI.trans (World.follows_silent _ o op) ih
  | proxy o op _ _ hlisten ih => exact hI.trans (World.follows_act hlisten _ o op) ih
  | beside size store _ ih => exact hI.trans (World.follows_of_store size store) ih

/-! ## Operations that fail -/

namespace Proxy

variable {listen : Listener γ} {o : ObjectId} {key : String} {v : Value} {w w' : World γ}
  {fault : Fault}

/-- An operation that fails does nothing. -/
theorem eq_of_act_error {op : Operation} (h : op.act listen o w = (.error fault, w')) : w' = w := by
  rw [op.act_eq] at h
  split at h
  · cases h
  · exact (Prod.mk.inj h).2.symm

/-- A write that fails does nothing. -/
theorem eq_of_set_error (h : set listen o key v w = (.error fault, w')) : w' = w := by
  have hact : (Operation.set key v).act listen o w = (.error fault, w') := Act.bind_of_error h
  exact eq_of_act_error hact

/-- A deletion that fails does nothing. -/
theorem eq_of_delete_error (h : delete listen o key w = (.error fault, w')) : w' = w := by
  have hact : (Operation.delete key).act listen o w = (.error fault, w') := Act.bind_of_error h
  exact eq_of_act_error hact

end Proxy

namespace Scope

variable {o : ObjectId} {n : ScopedName} {w w' : World γ} {fault : Fault}

/-- What is done with the owner of a name, and does nothing if it fails, leaves all contents and the
client alone if the name has no owner or it fails. -/
theorem unchanged_of_owner_error {act : ObjectId → Act γ Unit}
    (hact : ∀ owner fault u u', act owner u = (.error fault, u') → u' = u)
    (h : Act.holding [.object o] (Act.edit (Model.resolve o n) >>= act) w = (.error fault, w')) :
    (∀ p, w'.model.store p = w.model.store p) ∧ w'.client = w.client := by
  cases hinner : (Act.edit (Model.resolve o n) >>= act) (w.mapModel (·.holdAll [.object o])) with
  | mk r u =>
    unfold Act.holding at h
    rw [hinner] at h
    obtain ⟨rfl, rfl⟩ := Prod.mk.inj h
    cases hresolve : Model.resolve o n (w.model.holdAll [.object o]) with
    | mk r m =>
      have hstore := (Model.subscribes_resolve hresolve).store
      -- Whether it was the name or the operation that failed, the model is that after resolving.
      have hu : u = ⟨m, w.client⟩ := by
        cases r with
        | error fault' =>
          rw [Act.edit_bind_of_error (w := w.mapModel _) hresolve] at hinner
          exact (Prod.mk.inj hinner).2.symm
        | ok owner =>
          rw [Act.edit_bind_of_ok (w := w.mapModel _) hresolve] at hinner
          exact hact owner fault _ u hinner
      subst hu
      exact ⟨hstore, rfl⟩

/-- A write to a name that fails leaves all contents and the client alone. -/
theorem unchanged_of_setValue_error {listen : Listener γ} {v : Value}
    (h : setValue listen o n v w = (.error fault, w')) :
    (∀ p, w'.model.store p = w.model.store p) ∧ w'.client = w.client :=
  unchanged_of_owner_error (fun _ _ _ _ => Proxy.eq_of_set_error) h

/-- A deletion of a name that fails leaves all contents and the client alone. -/
theorem unchanged_of_deleteValue_error {listen : Listener γ}
    (h : deleteValue listen o n w = (.error fault, w')) :
    (∀ p, w'.model.store p = w.model.store p) ∧ w'.client = w.client :=
  unchanged_of_owner_error (fun _ _ _ _ => Proxy.eq_of_delete_error) h

end Scope

/-- In a run of silent operations and operations through proxies, also of those that are performed
while others are told of, every object shows what the operations make of the shape that it had: a
list that of its length and a function from indices to values, a map that of a finite map with
ascending keys. An index may be spelled with any digits, and a length be any value that is coerced
to a natural. An operation is refused exactly if the shape does not allow it, and then it changes
nothing and nobody is told; the same goes for contents and clients if an operation on a name
fails. -/
theorem Performs.contents_refine {w w' : World Log} (h : Performs w w') :
    (∃ new : Log, w'.client = new ++ w.client ∧ ∀ o, o < w.model.objects.size →
      (w'.model.store o).Shows (new.shape o (w.model.store o).shape)) ∧
    (∀ s : Store, s.Shows s.shape) ∧
    (∀ key i, Store.index? key = some i ↔ Store.Spells key i ∧ i < Nat.pow 2 64) ∧
    (∀ v n, Store.length? v = some n ↔ Number.integer? v.toNumber = some (n : Int)) ∧
    (∀ (γ : Type) (listen : Listener γ) (o : ObjectId) (op : Operation) (u : World γ),
      (op.act listen o u).1.toOption =
        ((u.model.store o).shape.step op).map (fun _ => (u.model.store o).shape.result op) ∧
      ∀ fault u', op.act listen o u = (.error fault, u') → u' = u) ∧
    (∀ (o : ObjectId) (op : Operation) (m : Model),
      (op.silent o m).1.toOption = ((m.store o).shape.step op).map (fun _ => ()) ∧
      ∀ fault m', op.silent o m = (.error fault, m') → m' = m) ∧
    ∀ (γ : Type) (listen : Listener γ) (o : ObjectId) (n : ScopedName) (u u' : World γ)
      (fault : Fault),
      ((∃ v, Scope.setValue listen o n v u = (.error fault, u')) ∨
        Scope.deleteValue listen o n u = (.error fault, u')) →
      (∀ p, u'.model.store p = u.model.store p) ∧ u'.client = u.client := by
  refine ⟨?_, Store.shows_shape, fun key i => Store.index?_eq_some_iff,
    fun v n => Store.length?_eq_some_iff, fun γ listen o op u => ⟨?_, fun fault u' =>
      Proxy.eq_of_act_error⟩, fun o op m => ⟨?_, fun fault m' hfault => ?_⟩,
    fun γ listen o n u u' fault hfault => ?_⟩
  · obtain ⟨_, new, hclient, hshape⟩ := h.follows
    refine ⟨new, hclient, fun o ho => ?_⟩
    rw [← hshape o ho]
    exact Store.shows_shape _
  · rw [← Store.shape_perform u.model.text, op.act_eq]
    cases (u.model.store o).perform u.model.text op <;> rfl
  · rw [← Store.shape_perform m.text, op.silent_eq]
    cases (m.store o).perform m.text op <;> rfl
  · rw [op.silent_eq] at hfault
    split at hfault
    · cases hfault
    · exact (Prod.mk.inj hfault).2.symm
  · rcases hfault with ⟨v, hset⟩ | hdelete
    · exact Scope.unchanged_of_setValue_error hset
    · exact Scope.unchanged_of_deleteValue_error hdelete

/-- An empty list that is watched. -/
def Model.tray : Model where
  objects := #[{ store := .list [], binding := some { watchers := [⟨1, .report 0⟩], lastId := 1 } }]

/-- Puts what is told of the first index at another one, silently. -/
def echoing : Listener Log
  | .change _ "0" v o, w =>
    (w.log o (.set "02" v)).mapModel fun m => ((Operation.set "02" v).silent o m).2
  | _, w => w

/-- A value is appended, put at a third index while that is told of, and then the list is cut. -/
theorem Performs.contents_refine_tray :
    ∃ w' : World Log, Performs ⟨Model.tray, []⟩ w' ∧
      w'.client = [(0, .set "length" (.text " 2 ")), (0, .set "02" (.bool true)),
        (0, .push (.bool true))] ∧
      w'.model.store 0 = .list [.bool true, .null] ∧
      ∃ new : Log, w'.client = new ++ [] ∧
        (w'.model.store 0).Shows (new.shape 0 (.list (Sequence.ofList []))) := by
  have hechoing (n : Notice) (u : World Log) : Performs u (echoing n u) := by
    unfold echoing
    split
    · exact .silent _ _ (.done _)
    · exact .done _
  have hrun := Performs.proxy (w := ⟨Model.tray, []⟩) 0 (.push (.bool true)) hechoing
    (.silent 0 (.set "length" (.text " 2 ")) (.done _))
  obtain ⟨⟨new, hnew, hshows⟩, _⟩ := hrun.contents_refine
  refine ⟨_, hrun, ?_, ?_, new, hnew, hshows 0 (by decide)⟩
  · rfl
  · rfl

end LiveScope
