import LiveScope.Expr.Eval
import LiveScope.Proofs.Model.Subscribing

/-!
# Two walks up the scopes

A variable is looked up by `Model.lookup`, which climbs from value to value, and the owner of its
field is found by `Model.resolve`, which goes from binding to binding and gives each scope on the
way one. `Model.above` is the scope a number of steps up, and both walks lead there, as long as
every link leads to an object with a binding (`Model.Linked`): `Model.lookup_eq_ok_iff` says so of
the variable and `Model.getValue_eq_ok_iff` of its field. They count differently: a variable has one
sigil more than its field, and both are refused from the same number of sigils on. Hence they agree
for every number of sigils but one (`Model.lookup_agrees_getValue`).
-/

namespace LiveScope

namespace Model

variable {m m' : Model} {o p : ObjectId}

/-! ## Links -/

/-- Whether every link to an enclosing scope leads to an object with a binding. -/
def Linked (m : Model) : Prop := ∀ o p, m.linkOf o = some p → m.isBound p = true

/-- Links lead to bindings if they did or are new ones that do, and no binding is lost. -/
theorem Linked.of_links (h : m.Linked)
    (hbound : ∀ o, m.isBound o = true → m'.isBound o = true)
    (hlinks : ∀ o p, m'.linkOf o = some p → m.linkOf o = some p ∨ m'.isBound p = true) :
    m'.Linked :=
  fun o p hop => (hlinks o p hop).elim (fun hold => hbound p (h o p hold)) id

/-- Giving an object a binding keeps links leading to bindings. -/
theorem Linked.ensureBinding (h : m.Linked) (o : ObjectId) : (m.ensureBinding o).Linked :=
  h.of_links (fun _ hb => isBound_ensureBinding hb o)
    fun q r hqr => .inl (by rwa [linkOf_ensureBinding] at hqr)

/-- Giving an object a binding does not change what encloses what. -/
theorem enclosing?_ensureBinding (h : m.Linked) (o p : ObjectId) :
    (m.ensureBinding o).enclosing? p = m.enclosing? p :=
  enclosing?_congr (store_ensureBinding m o) (linkOf_ensureBinding m o)
    (fun _ hb => isBound_ensureBinding hb o) (mem_living_ensureBinding m o) h p

/-- Holding an object that is alive does not change what encloses what. -/
theorem enclosing?_hold (h : m.Linked) (ho : o ∈ m.living) (p : ObjectId) :
    (m.holdAll [.object o]).enclosing? p = m.enclosing? p := by
  have hstore : ∀ q, (m.holdAll [.object o]).store q = m.store q := fun _ => rfl
  exact enclosing?_congr hstore (fun _ => rfl) (fun _ hb => hb) (mem_living_hold ho) h p

/-! ## The scope a number of steps up -/

/-- The scope a number of steps above an object. -/
def above (m : Model) : Nat → ObjectId → Option ObjectId
  | 0, o => some o
  | hops + 1, o => (m.enclosing? o).bind (m.above hops)

/-- The scopes above an object are the same wherever the same encloses the same. -/
theorem above_congr (h : ∀ o, m'.enclosing? o = m.enclosing? o) (hops : Nat) (o : ObjectId) :
    m'.above hops o = m.above hops o := by
  induction hops generalizing o with
  | zero => rfl
  | succ hops ih =>
    unfold above
    rw [h o]
    exact Option.bind_congr fun p _ => ih p

/-- Scopes that enclose one another are above the first of them. -/
theorem above_of_isChain {scope : ObjectId} {outer : List ObjectId}
    (h : List.IsChain (fun a b => m.enclosing? a = some b) (scope :: outer)) {hops : Nat}
    (hp : (scope :: outer)[hops]? = some p) : m.above hops scope = some p := by
  induction hops generalizing scope outer with
  | zero => exact hp
  | succ hops ih =>
    cases outer with
    | nil => cases hp
    | cons next outer =>
      obtain ⟨hnext, hrest⟩ := List.isChain_cons_cons.1 h
      unfold above
      rw [hnext]
      exact ih hrest hp

/-- Climbing leads to the scope above. -/
theorem climb_object (m : Model) (src : ScopedName) (hops : Nat) (o : ObjectId) :
    m.climb src hops (.object o) =
      match m.above hops o with
      | some p => .ok (.object p)
      | none => .error (.noEnclosingScope src.text) := by
  induction hops generalizing o with
  | zero => rfl
  | succ hops ih =>
    have hscope : (Value.object o).object?.bind m.enclosing? = m.enclosing? o := rfl
    unfold climb above
    rw [hscope]
    cases m.enclosing? o with
    | none => rfl
    | some p => exact ih p

/-- A variable with a name is looked up in the scope above, which is one step less far up than it
has sigils, unless it has too many. -/
theorem lookup_eq (m : Model) (o : ObjectId) {n : ScopedName} (hname : n.name ≠ "") :
    m.lookup (.object o) n =
      if maxDepth < n.sigils then .error (.deepVariable n.text)
      else match m.above (n.sigils - 1) o with
        | some p => .ok (m.get p n.name)
        | none => .error (.noEnclosingScope n.text) := by
  have hempty : n.name.isEmpty = false := by
    rw [Bool.eq_false_iff, Ne, String.isEmpty_iff]
    exact hname
  unfold lookup
  split
  · rename_i hzero
    rw [hzero, if_neg (Nat.not_lt_zero _)]
    rfl
  split
  · rfl
  · rw [climb_object]
    cases m.above (n.sigils - 1) o with
    | none => rfl
    | some p =>
      show Except.ok _ = _
      rw [hempty]
      rfl

/-- What a variable with a name comes to. -/
theorem lookup_eq_ok_iff (m : Model) (o : ObjectId) {n : ScopedName} (hname : n.name ≠ "")
    (v : Value) :
    m.lookup (.object o) n = .ok v ↔
      n.sigils ≤ maxDepth ∧ ∃ p, m.above (n.sigils - 1) o = some p ∧ m.get p n.name = v := by
  rw [lookup_eq m o hname]
  split
  · rename_i hdeep
    refine iff_of_false (fun hok => ?_) fun ⟨hle, _⟩ => Nat.not_lt.2 hle hdeep
    cases hok
  · rename_i hdeep
    rw [and_iff_right (Nat.not_lt.1 hdeep)]
    cases m.above (n.sigils - 1) o with
    | none => simp
    | some p => simp

/-- The owner of a name is the scope above, if it is not too far up. -/
theorem resolveFrom_eq_ok_iff (h : m.Linked) (name : String) (hops sigils : Nat) (o p : ObjectId) :
    (resolveFrom name hops sigils o m).1 = .ok p ↔ sigils ≤ hops ∧ m.above sigils o = some p := by
  induction hops generalizing sigils o m with
  | zero =>
    cases sigils with
    | zero =>
      show Except.ok o = .ok p ↔ 0 ≤ 0 ∧ some o = some p
      simp
    | succ sigils =>
      refine iff_of_false (fun hok => ?_) fun h => absurd h.1 (Nat.not_succ_le_zero _)
      cases hok
  | succ hops ih =>
    cases sigils with
    | zero =>
      show Except.ok o = .ok p ↔ 0 ≤ hops + 1 ∧ some o = some p
      simp
    | succ sigils =>
      unfold above
      cases hq : m.enclosing? o with
      | none =>
        rw [resolveFrom_of_none hq]
        refine iff_of_false (fun hok => ?_) ?_
        · cases hok
        · rintro ⟨_, hnone⟩
          cases hnone
      | some q =>
        -- The scope is given a binding on the way, which leaves the scopes above as they are.
        rw [resolveFrom_of_some hq, Option.bind_some, ih (h.ensureBinding q),
          above_congr (enclosing?_ensureBinding h q), Nat.add_le_add_iff_right]

/-- Holding an object that is alive does not change the owner of a name. -/
theorem resolve_hold (h : m.Linked) (ho : o ∈ m.living) {q : ObjectId} {n : ScopedName}
    (hres : (resolve q n m).1 = .ok p) : (resolve q n (m.holdAll [.object o])).1 = .ok p := by
  have hlinked : (m.holdAll [.object o]).Linked := h
  obtain ⟨hle, habove⟩ := (resolveFrom_eq_ok_iff h n.name maxDepth n.sigils q p).1 hres
  refine (resolveFrom_eq_ok_iff hlinked n.name maxDepth n.sigils q p).2 ⟨hle, ?_⟩
  rw [above_congr (enclosing?_hold h ho), habove]

/-- The value of a name is that in the scope above, if it is not too far up. -/
theorem getValue_eq_ok_iff (h : m.Linked) (o : ObjectId) (n : ScopedName) (v : Value) :
    (getValue o n m).1 = .ok v ↔
      n.sigils ≤ maxDepth ∧ ∃ p, m.above n.sigils o = some p ∧ m.get p n.name = v := by
  have howner (p : ObjectId) : (resolve o n m).1 = .ok p ↔
      n.sigils ≤ maxDepth ∧ m.above n.sigils o = some p :=
    resolveFrom_eq_ok_iff h n.name maxDepth n.sigils o p
  have hread : (getValue o n m).1 = .ok v ↔
      ∃ p, (resolve o n m).1 = .ok p ∧ m.get p n.name = v := by
    unfold getValue
    cases hres : resolve o n m with
    | mk r m₁ =>
      cases r with
      | error fault =>
        rw [Edit.bind_of_error hres]
        refine iff_of_false (fun hok => ?_) fun ⟨_, hok, _⟩ => ?_
        · cases hok
        · cases hok
      | ok p =>
        rw [Edit.bind_of_ok hres, Edit.bind_of_ok (e := get) rfl]
        show Except.ok (m₁.get p n.name) = .ok v ↔ _
        unfold Model.get
        rw [(subscribes_resolve hres).store]
        simp
  rw [hread]
  simp only [howner, and_assoc, exists_and_left]

/-- Evaluating a variable with a name and reading its field by name find the same value in the same
object, or neither finds one, for every number of sigils but one: with one sigil more than is
allowed the variable is refused, and the field, which has one sigil less, is not. -/
theorem lookup_agrees_getValue (h : m.Linked) (o : ObjectId) (row : Value) {n : ScopedName}
    (hname : n.name ≠ "") :
    (Expr.reference n).fields = [⟨n.sigils - 1, n.name⟩] ∧
      (n.sigils ≠ maxDepth + 1 → ∀ v, (Expr.reference n).eval m (.object o) row = .ok v ↔
        (getValue o ⟨n.sigils - 1, n.name⟩ m).1 = .ok v) ∧
      (∀ v, (Expr.reference n).eval m (.object o) row = .ok v →
        ∃ p, m.climb n (n.sigils - 1) (.object o) = .ok (.object p) ∧
          (resolve o ⟨n.sigils - 1, n.name⟩ m).1 = .ok p ∧ m.get p n.name = v) ∧
      (n.sigils = maxDepth + 1 →
        (Expr.reference n).eval m (.object o) row = .error (.deepVariable n.text) ∧
        ∀ v, (getValue o ⟨n.sigils - 1, n.name⟩ m).1 = .ok v ↔
          ∃ p, m.above maxDepth o = some p ∧ m.get p n.name = v) := by
  have heval : (Expr.reference n).eval m (.object o) row = m.lookup (.object o) n := rfl
  rw [heval]
  refine ⟨?_, fun hne v => ?_, fun v hv => ?_, fun heq => ⟨?_, fun v => ?_⟩⟩
  · unfold Expr.fields Expr.references
    rw [ScopedName.field?_of_name hname]
    rfl
  · rw [lookup_eq_ok_iff m o hname, getValue_eq_ok_iff h]
    refine and_congr_left fun _ => ?_
    dsimp only
    omega
  · obtain ⟨hle, p, hp, hget⟩ := (lookup_eq_ok_iff m o hname v).1 hv
    refine ⟨p, ?_, ?_, hget⟩
    · rw [climb_object, hp]
    · exact (resolveFrom_eq_ok_iff h _ _ _ o p).2 ⟨by dsimp only; omega, hp⟩
  · rw [lookup_eq m o hname, if_pos (by omega)]
  · rw [getValue_eq_ok_iff h, heq]
    exact and_iff_right (Nat.le_refl _)

/-- A scope with a link, a scope with a member `parent`, and one that has no binding. -/
def stair : Model :=
  { objects := #[⟨.map Dict.empty, some { parent := some 1 }⟩,
      ⟨.map (Dict.ofList [(parentKey, .object 2)]), some {}⟩,
      ⟨.map (Dict.ofList [("x", .bool true)]), none⟩],
    holds := [.object 0, .object 1] }

/-- The link leads to an object with a binding. -/
theorem linked_stair : stair.Linked := by
  intro o p hop
  match o with
  | 0 =>
    obtain rfl := Option.some.inj hop
    rfl
  | 1 | 2 | _ + 3 => cases hop

/-- Two scopes up the field is found by its name, and so by the variable. -/
theorem lookup_agrees_getValue_stair : stair.Linked ∧
    (getValue 0 ⟨2, "x"⟩ stair).1 = .ok (.bool true) ∧
    (Expr.reference ⟨3, "x"⟩).eval stair (.object 0) .null = .ok (.bool true) := by
  have hget : (getValue 0 ⟨2, "x"⟩ stair).1 = .ok (.bool true) := by rfl
  have hagrees := (lookup_agrees_getValue linked_stair 0 .null (n := ⟨3, "x"⟩) (by decide)).2.1
  exact ⟨linked_stair, hget, (hagrees (by decide) _).2 hget⟩

/-- A scope that is in its own member `parent`. -/
def ring : Model :=
  { objects := #[⟨.map (Dict.ofList [(parentKey, .object 0), ("x", .number 1)]), some {}⟩],
    holds := [.object 0] }

/-- The scope encloses itself any number of steps up. -/
theorem above_ring (hops : Nat) : ring.above hops 0 = some 0 := by
  induction hops with
  | zero => rfl
  | succ hops ih =>
    have hself : ring.enclosing? 0 = some 0 := by rfl
    unfold above
    rw [hself]
    exact ih

/-- At the limit the field is found and the variable is refused. -/
theorem lookup_not_agrees_getValue :
    (Expr.reference ⟨maxDepth + 1, "x"⟩).fields = [⟨maxDepth, "x"⟩] ∧
      (getValue 0 ⟨maxDepth, "x"⟩ ring).1 = .ok (.number 1) ∧
      ∀ v, (Expr.reference ⟨maxDepth + 1, "x"⟩).eval ring (.object 0) .null ≠ .ok v := by
  have hlinked : ring.Linked := by
    intro o p hop
    match o with
    | 0 | _ + 1 => cases hop
  have hfound : ring.get 0 "x" = .number 1 := by rfl
  refine ⟨by rfl, ?_, fun v hv => ?_⟩
  · exact (getValue_eq_ok_iff hlinked 0 _ _).2 ⟨Nat.le_refl _, 0, above_ring _, hfound⟩
  · have hle := ((lookup_eq_ok_iff ring 0 (n := ⟨maxDepth + 1, "x"⟩) (by decide) v).1 hv).1
    exact absurd hle (Nat.not_succ_le_self _)

end Model

end LiveScope
