import LiveScope.Proofs.Deep.Touching
import LiveScope.Proofs.Deep.Upkeep

/-!
# The guards against nesting agree

A property can be watched with everything inside its value exactly if the value can be written as
JSON: both guards draw the line at chains of more than `maxDepth` objects
(`Scope.guards_bindObject`). A third guard is used when something is written that is watched, and
starts at the depth of the node that is mended. It draws the same line: right after a property is
watched, a write is taken up exactly if the property could be watched anew after it
(`Scope.guards_agree`).

A property of a list is told of under the spelling of the write. A write of an element under
another spelling is not told of under the first one, and then it is not taken up
(`Scope.not_guards_agree`).
-/

namespace LiveScope

variable {γ : Type}

/-! ## Watching and writing as JSON -/

/-- Whether the guards agree about the property `n` of `r`: it can be watched, and its value be
written as JSON, exactly if no chain of objects in the value is longer than `maxDepth`; else both
end with a refusal. -/
structure Scope.Guards (listen : Listener γ) (o : ObjectId) (n : ScopedName) (k : CallbackId)
    (w : World γ) (r : ObjectId) : Prop where
  /-- It can be watched if and only if it is shallow. -/
  watched : (Scope.bindObject listen o n k w).1.isOk = true ↔
    w.model.Shallow maxDepth (w.model.get r n.name)
  /-- It can be written as JSON if and only if it is shallow. -/
  written : (w.model.toJson (w.model.get r n.name)).isOk = true ↔
    w.model.Shallow maxDepth (w.model.get r n.name)
  /-- If it is not, both are refused. -/
  refused : ¬ w.model.Shallow maxDepth (w.model.get r n.name) →
    (Scope.bindObject listen o n k w).1 = .error .nestedObjects ∧
      w.model.toJson (w.model.get r n.name) = .error .nestedData

namespace Model

variable {m : Model} {o r : ObjectId} {n : ScopedName} {k : CallbackId}

/-- A deep watch is set up if the value of its property is not too deep, and else refused. -/
theorem bindDeep_cases (hwhole : m.Whole) (howner : (resolve o n m).1 = .ok r) :
    (m.Shallow maxDepth (m.get r n.name) ∧ ∃ res, (bindDeep o n k m).1 = .ok res) ∨
      (¬ m.Shallow maxDepth (m.get r n.name) ∧
        (bindDeep o n k m).1 = .error .nestedObjects) := by
  -- The new deep watch has no tree, so that it can be moved exactly to what is not too deep.
  have hmoved {a : Model} (hres : resolve o n m = (.ok r, a)) :
      (retarget a.deeps.size (a.get r n.name) (a.addDeep ⟨r, n.name, k, none⟩)).1 = .ok () ↔
        m.Shallow maxDepth (m.get r n.name) := by
    have hresolve := subscribes_resolve hres
    let a' := a.addDeep ⟨r, n.name, k, none⟩
    have hstore : ∀ p, a'.store p = m.store p := hresolve.store
    have hsize : a'.objects.size = m.objects.size := hresolve.size
    have hget : a.get r n.name = m.get r n.name := congrArg (·.get n.name) (hresolve.store r)
    have hexists : ∀ q, m.get r n.name = .object q → q < m.objects.size := fun q hq =>
      hwhole r q (Store.get_mem_values hq)
    have hwhole' : a'.Whole := by
      intro p q hq
      rw [hstore] at hq
      rw [hsize]
      exact hwhole p q hq
    have hbare : ∀ t ∈ a'.tree? a.deeps.size, a'.Within maxDepth t.object := by
      unfold tree?
      rw [deep?_addDeep, if_pos rfl]
      exact nofun
    rw [hget, retarget_ok_iff hwhole' (fun q hq => hsize ▸ hexists q hq) hbare, shallow_iff]
    exact forall₂_congr fun q hq => within_iff_of_grown hwhole (fun p _ => hstore p) (hexists q hq)
  cases hbind : bindDeep o n k m with
  | mk res m' =>
    cases setUp_of_bindDeep hbind with
    | unresolved hres =>
      rw [hres] at howner
      cases howner
    | refused hres hret =>
      rw [hres] at howner
      obtain rfl := Except.ok.inj howner
      have hiff := hmoved hres
      rw [hret] at hiff
      obtain rfl := retarget_error hret
      refine .inr ⟨fun hshallow => ?_, rfl⟩
      cases hiff.2 hshallow
    | bound hres hret =>
      rw [hres] at howner
      obtain rfl := Except.ok.inj howner
      have hiff := hmoved hres
      rw [hret] at hiff
      exact .inl ⟨hiff.1 rfl, _, rfl⟩

end Model

/-- The guards agree about every property that a name stands for. -/
theorem Scope.guards_bindObject {listen : Listener γ} {o r : ObjectId} {n : ScopedName}
    {k : CallbackId} {w : World γ} (hwhole : w.model.Whole)
    (howner : (Model.resolve o n w.model).1 = .ok r) : Scope.Guards listen o n k w r := by
  have hjson : (∃ j, w.model.toJsonWithin maxDepth (w.model.get r n.name) = .ok j) ↔
      w.model.Shallow maxDepth (w.model.get r n.name) := Model.toJsonWithin_ok_iff
  have hwritten : (w.model.toJson (w.model.get r n.name)).isOk = true ↔
      w.model.Shallow maxDepth (w.model.get r n.name) := by
    rw [← hjson]
    unfold Model.toJson
    cases w.model.toJsonWithin maxDepth (w.model.get r n.name) with
    | ok j => exact iff_of_true rfl ⟨j, rfl⟩
    | error => exact iff_of_false nofun nofun
  have hresult : (Scope.bindObject listen o n k w).1 =
      (Model.bindDeep o n k w.model).1.map (·.1) := by
    rw [Scope.bindObject_eq]
    cases Model.bindDeep o n k w.model with
    | mk res m => cases res <;> rfl
  rcases Model.bindDeep_cases (k := k) hwhole howner with ⟨hshallow, res, hok⟩ | ⟨hdeep, herror⟩
  · rw [hok] at hresult
    refine ⟨iff_of_true ?_ hshallow, hwritten, absurd hshallow⟩
    rw [hresult]
    rfl
  · rw [herror] at hresult
    refine ⟨iff_of_false ?_ hdeep, hwritten, fun _ => ⟨hresult, Model.toJson_eq_error_iff.2 hdeep⟩⟩
    rw [hresult]
    exact nofun

namespace Operation

/-- Whether a deep watch for a function takes up an operation: its function is told, and it refuses
nothing. -/
def TakenUp (d : DeepId) (k : CallbackId) (listen : Listener History) (o : ObjectId)
    (op : Operation) (w : World History) : Prop :=
  World.Told k w (op.run listen o w) ∧ op.refusals d listen o w = []

/-- Whether a deep watch of the property `p` of `r` guards itself against an operation as a new one
would: its function is told in any case, it warns of what it refuses, and it refuses something
exactly if the property could not be watched anew after the operation. -/
structure GuardedAlike (d : DeepId) (r : ObjectId) (p : String) (k : CallbackId)
    (listen : Listener History) (o : ObjectId) (op : Operation) (w : World History) : Prop where
  /-- The function is told. -/
  told : World.Told k w (op.run listen o w)
  /-- It is warned of all that is refused. -/
  warned : ∀ fault ∈ op.refusals d listen o w, World.Warned fault w (op.run listen o w)
  /-- Nothing is refused if and only if the property could be watched anew. -/
  anew : ∀ (listen' : Listener History) (o' : ObjectId) (n : ScopedName) (k' : CallbackId),
    n.name = p → (Model.resolve o' n (op.run listen o w).model).1 = .ok r →
      (op.TakenUp d k listen o w ↔
        (Scope.bindObject listen' o' n k' (op.run listen o w)).1.isOk = true)

end Operation

namespace Spectating

variable {d : DeepId} {r o : ObjectId} {p : String} {n : ScopedName} {k : CallbackId} {id : Nat}
  {V : Value} {listen : Listener History} {op : Operation} {μ : Mutation} {w w₀ w₁ : World History}

/-- A deep watch that is set up is attached to its property, whatever its function does when it is
told the value, as long as it only looks on. -/
theorem attached_bind (hbinds : Scope.bindObject listen o n k w₀ = (.ok id, w₁))
    (h : w₀.model.Orderly) (hfree : ∀ o, w₀.model.keysOf o = none)
    (hbound : w₀.model.isBound o = true) (howner : (Model.resolve o n w₀.model).1 = .ok r)
    (hlisten : listen.Spectates w₀.model.deeps.size r n.name k) :
    ∃ V, w₁.model.Attached w₀.model.deeps.size r n.name k V := by
  obtain ⟨V, m, hbind, rfl⟩ := Following.bindObject_of_ok howner hbinds
  have hattached := Model.attached_bindDeep h hfree hbound hbind
  have htold := holding_spares (v := V) hlisten (.object o :: .object r :: V.holds) (.value k V)
    { w₀ with model := m }
  exact ⟨V, hattached.aside (htold hattached.toPosted fun q hq =>
    hattached.lt_size hattached.whole hq)⟩

/-- A deep watch that mirrors its property guards itself as a new one would. -/
theorem guardedAlike (hlisten : listen.Spectates d r p k) (h : w.model.Attached d r p k V)
    (ht : op.Touches r p listen o w μ) : op.GuardedAlike d r p k listen o w := by
  obtain ⟨htold, hrefusals⟩ := run_touching hlisten h ht
  constructor
  case told => exact htold
  case warned =>
    obtain ⟨tree, hdeep⟩ := h.deep
    exact fun fault hfault => run_warned hlisten (Option.isSome_of_eq_some hdeep) hfault
  case anew =>
    rintro listen' o' n k' rfl howner
    have hguards : Scope.Guards listen' o' n k' (op.run listen o w) r :=
      Scope.guards_bindObject (ht.whole_run hlisten h.whole) howner
    rw [hguards.watched, ← hrefusals]
    exact and_iff_right htold

end Spectating

/-- The guards against nesting agree. A property that a name stands for can be watched, and its
value be written as JSON, exactly if no chain of objects in the value is longer than `maxDepth`. And
right after it was watched, by clients that only look on, a write of the property or of something
inside its value is taken up exactly if the property could be watched anew after it. -/
theorem Scope.guards_agree {listen : Listener History} {o r : ObjectId} {n : ScopedName}
    {k : CallbackId} {w : World History} (hwhole : w.model.Whole)
    (howner : (Model.resolve o n w.model).1 = .ok r) :
    Scope.Guards listen o n k w r ∧
      (w.model.Orderly → (∀ o, w.model.keysOf o = none) → w.model.isBound o = true →
        listen.Spectates w.model.deeps.size r n.name k →
        ∀ (id : Nat) (w' : World History), Scope.bindObject listen o n k w = (.ok id, w') →
        ∀ (listen' : Listener History) (o' : ObjectId) (op : Operation) (μ : Mutation),
          listen'.Spectates w.model.deeps.size r n.name k → op.Touches r n.name listen' o' w' μ →
          op.GuardedAlike w.model.deeps.size r n.name k listen' o' w') := by
  refine ⟨Scope.guards_bindObject hwhole howner, ?_⟩
  intro horderly hfree hbound hlisten id w' hbinds listen' o' op μ hlisten' htouches
  obtain ⟨V, hattached⟩ :=
    Spectating.attached_bind hbinds horderly hfree hbound howner hlisten
  exact Spectating.guardedAlike hlisten' hattached htouches

namespace Spectating

/-- A client that only listens looks on. -/
theorem spectates_quiet (d : DeepId) (r : ObjectId) (p : String) (k : CallbackId) :
    Listener.Spectates d r p k Following.quiet :=
  fun n u => ⟨World.Onlooks.steady.refl (u.record (.told n)), fun _ =>
    (Model.Aside.steady d k).refl u.model⟩

/-- To write something in the map inside the list of the board changes something inside the value of
the property. -/
theorem touches_board {v : Value} (hv : ∀ q, v = .object q → q < 3) :
    (Operation.set "x" v).Touches 0 "p" Following.quiet 2 Upkeep.boardBound
      ⟨2, .map (Dict.ofList [("x", v)]), [("x", v)], .object 2 :: v.holds⟩ where
  change := rfl
  exist := by decide
  known q hq := hv q (Option.some.inj hq)
  countable hlist := by cases hlist
  tells := List.cons_ne_nil _ _
  concerns := .inr ⟨1, rfl, .single List.mem_cons_self⟩
  alive _ a _ :=
    Operation.alive_of_held (Upkeep.keeps_quiet _) List.mem_cons_self (by decide) _ [] a

end Spectating

/-- The property of the board can be watched. After that the map inside its list can be given a
null, and the property could be watched again; but it cannot be given the list, and of that it is
warned. -/
theorem Scope.guards_agree_board :
    Scope.Guards Following.quiet 0 ⟨0, "p"⟩ 0 (⟨Upkeep.board, []⟩ : World History) 0 ∧
      (Operation.set "x" .null).TakenUp 0 0 Following.quiet 2 Upkeep.boardBound ∧
      ¬ (Operation.set "x" (.object 1)).TakenUp 0 0 Following.quiet 2 Upkeep.boardBound := by
  obtain ⟨horderly, _, hfree⟩ := Upkeep.board_unsubscribed
  have howner : (Model.resolve 0 ⟨0, "p"⟩ Upkeep.board).1 = .ok 0 := rfl
  obtain ⟨id, hbinds⟩ : ∃ id, Scope.bindObject Following.quiet 0 ⟨0, "p"⟩ 0 ⟨Upkeep.board, []⟩ =
      (.ok id, Upkeep.boardBound) := Act.ok_of_isOk (by decide +kernel)
  have hquiet := Spectating.spectates_quiet 0 0 "p" 0
  obtain ⟨hguards, hwrites⟩ := Scope.guards_agree (w := ⟨Upkeep.board, []⟩) horderly.whole howner
  have hanew {v : Value} (hv : ∀ q, v = .object q → q < 3) :=
    (hwrites horderly hfree rfl hquiet id _ hbinds Following.quiet 2 _ _ hquiet
      (Spectating.touches_board hv)).anew Following.quiet 0 ⟨0, "p"⟩ 1 rfl rfl
  have hnull : ∀ q, Value.null = .object q → q < 3 := fun q heq => by cases heq
  have hlist : ∀ q, Value.object 1 = .object q → q < 3 := fun q heq => by
    obtain rfl := Value.object.inj heq
    decide
  refine ⟨hguards, (hanew hnull).2 (by decide +kernel), fun htaken => ?_⟩
  exact absurd ((hanew hlist).1 htaken) (by decide +kernel)

/-- A list of one truth value, and nothing subscribed to it. -/
def shelf : Model :=
  { objects := #[⟨.list [.bool false], some {}⟩], holds := [.object 0] }

/-- Nothing is subscribed to the shelf. -/
theorem shelf_unsubscribed : shelf.Orderly ∧ ∀ o, shelf.keysOf o = none := by
  have hobjects (p : ObjectId → Prop) (h₀ : p 0) (h : ∀ o, p (o + 1)) (o : ObjectId) : p o :=
    match o with
    | 0 => h₀
    | o + 1 => h o
  have hwhole : shelf.Whole := by
    refine hobjects _ (fun q hq => ?_) fun o q hq => ?_
    · cases List.mem_singleton.1 hq
    · cases hq
  exact ⟨.of_unsubscribed hwhole (hobjects _ rfl fun _ => rfl) (hobjects _ rfl fun _ => rfl)
    (hobjects _ rfl fun _ => rfl) rfl, hobjects _ rfl fun _ => rfl⟩

/-- The element of the shelf is watched under the key `0` and replaced under the key `00`: it could
be watched anew, but its function is told nothing. -/
theorem Scope.not_guards_agree : ¬ ∀ (o r : ObjectId) (n : ScopedName) (k : CallbackId) (id : Nat)
    (op : Operation) (w₀ w₁ : World History),
    Scope.bindObject Following.quiet o n k w₀ = (.ok id, w₁) →
    w₀.model.Orderly → (∀ o, w₀.model.keysOf o = none) → w₀.model.isBound o = true →
    (Model.resolve o n w₀.model).1 = .ok r →
    (op.run Following.quiet r w₁).model.get r n.name ≠ w₁.model.get r n.name →
    (op.TakenUp w₀.model.deeps.size k Following.quiet r w₁ ↔
      (Scope.bindObject Following.quiet o n k (op.run Following.quiet r w₁)).1.isOk = true) := by
  intro h
  let w₁ := (Scope.bindObject Following.quiet 0 ⟨0, "0"⟩ 0 ⟨shelf, []⟩).2
  obtain ⟨id, hbinds⟩ : ∃ id, Scope.bindObject Following.quiet 0 ⟨0, "0"⟩ 0 ⟨shelf, []⟩ =
      (.ok id, w₁) := Act.ok_of_isOk (by decide +kernel)
  obtain ⟨horderly, hfree⟩ := shelf_unsubscribed
  -- Both keys spell the index of the element, but the write is announced of the other one.
  let w₂ := (Operation.set "00" (.bool true)).run Following.quiet 0 w₁
  have hbefore : (w₁.model.get 0 "0").truthy = false := by decide +kernel
  have hafter : (w₂.model.get 0 "0").truthy = true := by decide +kernel
  have hreplaced : w₂.model.get 0 "0" ≠ w₁.model.get 0 "0" := by
    intro heq
    rw [heq, hbefore] at hafter
    cases hafter
  have hiff := h 0 0 ⟨0, "0"⟩ 0 id (.set "00" (.bool true)) ⟨shelf, []⟩ w₁ hbinds horderly hfree rfl
    rfl hreplaced
  obtain ⟨⟨new, n, hnew, hmem, _⟩, _⟩ := hiff.2 (by decide +kernel)
  have hsilent : w₂.client.length = w₁.client.length := by decide +kernel
  have hlength : w₂.client.length = new.length + w₁.client.length := by
    rw [← List.length_append, ← hnew]
  rw [List.length_eq_zero_iff.1 (by omega : new.length = 0)] at hmem
  cases hmem

end LiveScope
