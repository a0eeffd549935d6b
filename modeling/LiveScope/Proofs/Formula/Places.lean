import LiveScope.Proofs.Formula.Scope
import LiveScope.Proofs.Model.Subscribing

/-!
# Where a formula is connected

A formula is connected where its fields belong when it is bound, and nowhere else: to the name of
each field, at the owner that the field has then (`Formula.Attached`). Connecting one field after
the other does not change which scope encloses which, so that all of them are resolved in the model
that the binding begins with (`Model.connectFields_owned`). Nothing moves a connection later.
-/

namespace LiveScope

namespace Model

variable {m m' : Model} {o : ObjectId}

/-- A name has the same owner where the same encloses the same. -/
theorem resolve_congr (h : m.Linked) (h' : m'.Linked)
    (hsame : ∀ q, m'.enclosing? q = m.enclosing? q) (n : ScopedName) (p : ObjectId) :
    (resolve o n m').1 = .ok p ↔ (resolve o n m).1 = .ok p := by
  have howner := resolveFrom_eq_ok_iff h n.name maxDepth n.sigils o p
  have howner' := resolveFrom_eq_ok_iff h' n.name maxDepth n.sigils o p
  rw [above_congr hsame] at howner'
  exact howner'.trans howner.symm

/-- To register what is connected keeps the same objects alive. -/
theorem mem_living_register (m : Model) (o : ObjectId)
    (connections : List (ObjectId × SubscriptionId)) (p : ObjectId) :
    p ∈ (m.register o connections none).2.living ↔ p ∈ m.living := by
  have hstore := m.store_modifyBinding o (·.register connections none)
  have hreferences (q : ObjectId) :
      (m.register o connections none).2.references q = m.references q := by
    unfold references
    rw [show (m.register o connections none).2.store q = m.store q from hstore q]
    congr 1
    show ((m.modifyBinding o (·.register connections none)).binding? q).elim [] _ = _
    rw [binding?_modifyBinding]
    split
    · cases m.binding? q with
      | none => rfl
      | some b =>
        show b.connections.flatMap _ ++ (b.registrations ++ [_]).flatMap _ = _
        -- The new registration has no deep watch, so that it refers to nothing.
        rw [List.flatMap_append]
        show _ ++ (_ ++ []) = _
        rw [List.append_nil]
        rfl
    · rfl
  exact mem_living_congr (size_modifyObject m o _) (fun _ h => h) (fun _ h => .inl h)
    (fun q _ hr => hreferences q ▸ hr) (fun q _ hr => .inl (hreferences q ▸ hr)) p

/-- To register what is connected changes nothing about which scope encloses which. -/
theorem enclosing?_register (hl : m.Linked) (connections : List (ObjectId × SubscriptionId))
    (q : ObjectId) : (m.register o connections none).2.enclosing? q = m.enclosing? q := by
  refine enclosing?_congr (m.store_modifyBinding o _) (fun p => ?_) (fun p hp => ?_)
    (mem_living_register m o connections) hl q
  · exact linkOf_modifyBinding (fun _ => by rfl) m o p
  · exact (isBound_modifyBinding m o _ p).trans hp

/-- A subscription to several names connects a handler for each to the name, at the owner that the
name has when it begins, and nothing else. It does not change which scope encloses which. -/
theorem connectFields_owned {handler : ScopedName → Handler} {names : List ScopedName}
    {made made' : List (ObjectId × SubscriptionId)} (hl : m.Linked) (hwhole : m.Whole)
    (hb : m.isBound o = true)
    (halive : ∀ n ∈ names, ∀ p ∈ m.handlerObjects (handler n), p ∈ m.living)
    (hstatic : ∀ n m₁ m₂, handlerObjects m₁ (handler n) = handlerObjects m₂ (handler n))
    (hok : connectFields o handler names made m = (.ok made', m')) :
    ∃ news, Subscribes news m m' ∧ (∀ q, m'.enclosing? q = m.enclosing? q) ∧
      (∀ p, ∀ c ∈ news p, ∃ n ∈ names, (resolve o n m).1 = .ok p ∧ c.key = n.name ∧
        c.handler = handler n) ∧
      ∀ n ∈ names, ∃ p, (resolve o n m).1 = .ok p ∧ ∃ c ∈ news p, c.key = n.name ∧
        c.handler = handler n := by
  induction names generalizing made m with
  | nil =>
    obtain ⟨_, rfl⟩ := Prod.mk.inj hok
    exact ⟨_, .refl m, fun _ => rfl, nofun, nofun⟩
  | cons n names ih =>
    obtain ⟨owner, m₁, hres, hok⟩ := resolve_of_connectFields hok
    have hresolve := subscribes_resolve hres
    have hconnect := subscribes_connect m₁ owner n.name (handler n)
    have hsub := hresolve.trans hconnect
    have howner := isBound_of_resolve hwhole hb hres
    have hundisturbed : Undisturbed m m₁ :=
      (undisturbed_resolveFrom n.name maxDepth n.sigils o).of_run hres
    have hundisturbed₂ : Undisturbed m (m₁.connect owner n.name (handler n)).2 := by
      refine Undisturbed.steady.trans hundisturbed (undisturbed_connect fun p hp => ?_)
      rw [hundisturbed.living p]
      exact halive n List.mem_cons_self p (hstatic n m₁ m ▸ hp)
    -- The names after the first have the owners that they had before it was connected.
    have hl₂ : (m₁.connect owner n.name (handler n)).2.Linked :=
      hl.of_links hsub.isBound fun p q hpq => .inl (hsub.linkOf p ▸ hpq)
    have hencloses :=
      enclosing?_congr hsub.store hsub.linkOf hsub.isBound hundisturbed₂.living hl
    have hsame := resolve_congr (o := o) hl hl₂ hencloses
    obtain ⟨news, hrest, hencloses', hnews, hmade⟩ := ih hl₂
      (fun p q hq => by
        rw [hsub.store] at hq
        exact Nat.lt_of_lt_of_eq (hwhole p q hq) hsub.size.symm)
      (hsub.isBound o hb)
      (fun n' hn' p hp => by
        rw [hundisturbed₂.living p]
        exact halive n' (List.mem_cons_of_mem n hn') p (hstatic n' _ m ▸ hp)) hok
    refine ⟨_, hsub.trans hrest, fun q => (hencloses' q).trans (hencloses q),
      fun p c hc => ?_, fun n' hn' => ?_⟩
    · rw [List.nil_append] at hc
      rcases List.mem_append.1 hc with hc | hc
      · obtain ⟨⟨rfl, _⟩, rfl⟩ := mem_newConnection.1 hc
        exact ⟨n, List.mem_cons_self, by rw [hres], rfl, rfl⟩
      · obtain ⟨n', hn', hp, hc⟩ := hnews p c hc
        exact ⟨n', List.mem_cons_of_mem n hn', (hsame n' p).1 hp, hc⟩
    · rcases List.mem_cons.1 hn' with rfl | hn'
      · refine ⟨owner, by rw [hres], ⟨m₁.nextId owner, n'.name, handler n'⟩, ?_, rfl, rfl⟩
        exact List.mem_append_left _ (mem_newConnection.2 ⟨⟨rfl, howner⟩, rfl⟩)
      · obtain ⟨p, hp, c, hc, hhandler⟩ := hmade n' hn'
        exact ⟨p, (hsame n' p).1 hp, c, List.mem_append_right _ hc, hhandler⟩

/-- What is above a value is the same where the same encloses the same. -/
theorem climb_congr (h : ∀ q, m'.enclosing? q = m.enclosing? q) (src : ScopedName) (hops : Nat)
    (v : Value) : m'.climb src hops v = m.climb src hops v := by
  induction hops generalizing v with
  | zero => rfl
  | succ hops ih =>
    unfold climb
    rw [funext h]
    cases v.object?.bind m.enclosing? with
    | none => rfl
    | some p => exact ih (.object p)

end Model

/-- Models with the same content, in which the same encloses the same, give an expression the same
value. -/
theorem Expr.eval_congr {m m' : Model} (hstore : ∀ o, m'.store o = m.store o)
    (hencloses : ∀ q, m'.enclosing? q = m.enclosing? q) (e : Expr) (data row : Value) :
    e.eval m' data row = e.eval m data row := by
  -- With the same content everywhere all values have the same texts.
  have hclosed : m.Closed fun _ => True := fun _ _ _ _ => trivial
  have htext (v : Value) : m'.text v = m.text v :=
    Model.text_congr hclosed (fun o _ => hstore o) fun _ _ => trivial
  have hget (o : ObjectId) (key : String) : m'.get o key = m.get o key := by
    unfold Model.get
    rw [hstore]
  have hmember (v : Value) (name : String) : m'.memberOf v name = m.memberOf v name := by
    unfold Model.memberOf
    rw [funext fun o => hget o name]
  have hlookup (n : ScopedName) : m'.lookup data n = m.lookup data n := by
    unfold Model.lookup
    simp only [Model.climb_congr hencloses, hmember]
  rw [eval_eq_evalBy, eval_eq_evalBy]
  exact (evalBy_congr (fun _ => True) (fun _ _ => trivial) (fun v _ => htext v)
    (fun name => ⟨hmember row name, trivial⟩) e fun n _ => ⟨hlookup n, fun _ _ => trivial⟩).1

namespace Formula

/-- Whether a key of an object is where a field of a formula belongs in a model. -/
def Place (f : Formula) (m : Model) (o : ObjectId) (key : String) : Prop :=
  ∃ n ∈ f.expr.fields, n.name = key ∧ (Model.resolve f.scope n m).1 = .ok o

/-- Whether connections evaluate a formula again, and there is one at each place where a field of
it belongs in a model, and none elsewhere. -/
structure Attached (f : Formula) (m : Model) (made : ObjectId → List Connection) : Prop where
  /-- The connections evaluate the formula. -/
  runs : ∀ o, ∀ c ∈ made o, ∃ field, c.handler = .recompute field f
  /-- Each is at a place where a field belongs. -/
  placed : ∀ o, ∀ c ∈ made o, f.Place m o c.key
  /-- There is one at every such place. -/
  covers : ∀ o key, f.Place m o key → ∃ c ∈ made o, c.key = key

variable {f : Formula} {m m' : Model}

/-- To subscribe to the fields of a formula attaches it where they belong. It has the same value
afterwards. -/
theorem attached_of_bindFields {id : Option Nat} (hl : m.Linked) (hwhole : m.Whole)
    (hb : m.isBound f.scope = true) (hrow : ∀ q, f.row.object? = some q → q ∈ m.living)
    (h : Model.bindFields f.scope f.expr.fields (fun n => .recompute n.text f) m = (.ok id, m')) :
    ∃ made, f.Attached m made ∧ Model.Connects made m m' ∧ m'.holds = m.holds ∧
      ∀ q, m'.enclosing? q = m.enclosing? q := by
  rw [Model.bindFields_eq] at h
  split at h
  · -- Without fields there is nothing to connect.
    rename_i hempty
    obtain ⟨_, rfl⟩ := Prod.mk.inj h
    refine ⟨fun _ => [], ⟨nofun, nofun, ?_⟩,
      ⟨rfl, rfl, fun _ => rfl, fun _ => rfl, fun _ => (List.append_nil _).symm⟩, rfl,
      fun _ => rfl⟩
    rintro o key ⟨n, hn, _⟩
    rw [List.isEmpty_iff.1 hempty] at hn
    cases hn
  · cases hc : Model.connectFields f.scope (fun n => .recompute n.text f) f.expr.fields [] m with
    | mk r m₁ =>
      rw [hc] at h
      cases r with
      | error => cases h
      | ok made =>
        obtain ⟨_, rfl⟩ := Prod.mk.inj h
        have halive : ∀ n ∈ f.expr.fields, ∀ p ∈ m.handlerObjects (.recompute n.text f),
            p ∈ m.living :=
          fun n _ p hp => hrow p (Option.mem_toList.1 hp)
        obtain ⟨news, hsub, hencloses, hnews, hmade⟩ :=
          Model.connectFields_owned hl hwhole hb halive (fun _ _ _ => rfl) hc
        have hl₁ : m₁.Linked := hl.of_links hsub.isBound fun p q hpq => .inl (hsub.linkOf p ▸ hpq)
        refine ⟨news, ⟨fun o c hc => ?_, fun o c hc => ?_, ?_⟩, hsub.register f.scope made none,
          hsub.holds, fun q => (Model.enclosing?_register hl₁ made q).trans (hencloses q)⟩
        · obtain ⟨n, _, _, _, hhandler⟩ := hnews o c hc
          exact ⟨n.text, hhandler⟩
        · obtain ⟨n, hn, howner, hkey, _⟩ := hnews o c hc
          exact ⟨n, hn, hkey.symm, howner⟩
        · rintro o key ⟨n, hn, rfl, howner⟩
          obtain ⟨p, hp, c, hc, hkey, _⟩ := hmade n hn
          obtain rfl := Except.ok.inj (hp.symm.trans howner)
          exact ⟨c, hc, hkey⟩

end Formula

end LiveScope
