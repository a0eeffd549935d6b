import LiveScope.Proofs.World.Mutation
import LiveScope.World.Bind

/-!
# What the operations that subscribe do

Each of them changes the model first and, if that succeeds, tells the client a value. The equations
here put the two parts side by side; what the change of the model is, is the subject of
`LiveScope.Proofs.Model.Subscribing`.
-/

namespace LiveScope

variable {γ : Type}

namespace Scope

variable (listen : Listener γ) (o : ObjectId) (w : World γ)

/-- Binding an expression evaluates it, subscribes to its fields and tells the value. -/
theorem bindFormula_eq (e : Expr) (row : Value) (sink : Sink) :
    bindFormula listen o e row sink w =
      match e.eval w.model (.object o) row with
      | .error fault => (.error fault, w)
      | .ok v =>
        match Model.bindFields o e.fields (fun n => .recompute n.text ⟨e, o, row, sink⟩)
          w.model with
        | (.error fault, m) => (.error fault, { w with model := m })
        | (.ok id, m) => (.ok ⟨id, v, e.fields⟩, World.holding
          (.object o :: row.holds ++ v.holds) (listen (sink.notice v)) { w with model := m }) := by
  unfold bindFormula
  show ((liftM (e.eval w.model (.object o) row) : Act γ Value) >>= _) w = _
  cases e.eval w.model (.object o) row with
  | error fault => rfl
  | ok v =>
    show (Act.edit (Model.bindFields o e.fields fun n => .recompute n.text ⟨e, o, row, sink⟩) >>=
      _ : Act γ BoundFormula) w = _
    dsimp only
    cases hb : Model.bindFields o e.fields (fun n => .recompute n.text ⟨e, o, row, sink⟩)
        w.model with
    | mk r m =>
      cases r with
      | error fault => exact Act.edit_bind_of_error hb
      | ok id => exact Act.edit_bind_of_ok hb

/-- A formula that is bound was evaluated and its fields were subscribed to, and its value is told
at once. -/
theorem bindFormula_of_ok {listen : Listener γ} {o : ObjectId} {w w' : World γ} {e : Expr}
    {row : Value} {sink : Sink} {b : BoundFormula}
    (h : bindFormula listen o e row sink w = (.ok b, w')) :
    e.eval w.model (.object o) row = .ok b.value ∧
      ∃ m, Model.bindFields o e.fields (fun n => .recompute n.text ⟨e, o, row, sink⟩) w.model =
          (.ok b.id, m) ∧
        w' = World.holding (.object o :: row.holds ++ b.value.holds)
          (listen (sink.notice b.value)) { w with model := m } := by
  rw [bindFormula_eq] at h
  cases hv : e.eval w.model (.object o) row with
  | error fault =>
    rw [hv] at h
    cases h
  | ok v =>
    rw [hv] at h
    dsimp only at h
    cases hfields : Model.bindFields o e.fields (fun n => .recompute n.text ⟨e, o, row, sink⟩)
        w.model with
    | mk r m =>
      rw [hfields] at h
      cases r with
      | error fault => cases h
      | ok id =>
        obtain ⟨hb, rfl⟩ := Prod.mk.inj h
        obtain rfl := Except.ok.inj hb
        exact ⟨rfl, m, rfl, rfl⟩

/-- Binding a source binds what it is read as. -/
theorem bindExpr_eq {src : String} {e : Expr} (h : Expr.ofSource src = .ok e) (row : Value)
    (sink : Sink) : bindExpr listen o src row sink w = bindFormula listen o e row sink w := by
  unfold bindExpr
  rw [h]
  rfl

/-- Binding a template binds what it is read as. -/
theorem bindTemplate_eq {src : String} {e : Expr} (h : Expr.ofTemplate src = .ok e) (row : Value)
    (sink : Sink) : bindTemplate listen o src row sink w = bindFormula listen o e row sink w := by
  unfold bindTemplate
  rw [h]
  rfl

/-- What binding a formula comes to. -/
inductive Formulates : Except Fault BoundFormula × World γ → Prop
  /-- It cannot be read, or not be evaluated. -/
  | unvalued (fault : Fault) : Formulates (.error fault, w)
  /-- One of its fields belongs to no scope. -/
  | unresolved {names : List ScopedName} {handler : ScopedName → Handler} {fault : Fault}
      {m : Model} (fields : Model.bindFields o names handler w.model = (.error fault, m)) :
      Formulates (.error fault, { w with model := m })
  /-- Its fields are subscribed to, and its value is told. -/
  | bound {names : List ScopedName} {handler : ScopedName → Handler} {id : Option Nat} {m : Model}
      {v : Value} {hs : List Hold} {n : Notice}
      (fields : Model.bindFields o names handler w.model = (.ok id, m)) :
      Formulates (.ok ⟨id, v, names⟩, World.holding hs (listen n) { w with model := m })

/-- Binding an expression comes to one of these. -/
theorem formulates_bindFormula (e : Expr) (row : Value) (sink : Sink) :
    Formulates listen o w (bindFormula listen o e row sink w) := by
  rw [bindFormula_eq]
  cases e.eval w.model (.object o) row with
  | error fault => exact .unvalued fault
  | ok v =>
    dsimp only
    cases hfields : Model.bindFields o e.fields (fun n => .recompute n.text ⟨e, o, row, sink⟩)
        w.model with
    | mk r m =>
      cases r with
      | error fault => exact .unresolved hfields
      | ok id => exact .bound hfields

/-- Binding the source of an expression comes to one of these. -/
theorem formulates_bindExpr (src : String) (row : Value) (sink : Sink) :
    Formulates listen o w (bindExpr listen o src row sink w) := by
  cases hsrc : Expr.ofSource src with
  | error fault =>
    unfold bindExpr
    rw [hsrc]
    exact .unvalued fault
  | ok e =>
    rw [bindExpr_eq _ _ _ hsrc]
    exact formulates_bindFormula listen o w e row sink

/-- Binding a template comes to one of these. -/
theorem formulates_bindTemplate (src : String) (row : Value) (sink : Sink) :
    Formulates listen o w (bindTemplate listen o src row sink w) := by
  cases hsrc : Expr.ofTemplate src with
  | error fault =>
    unfold bindTemplate
    rw [hsrc]
    exact .unvalued fault
  | ok e =>
    rw [bindTemplate_eq _ _ _ hsrc]
    exact formulates_bindFormula listen o w e row sink

/-- Binding a property with everything inside its value sets up a deep watch and tells the
value. -/
theorem bindObject_eq (n : ScopedName) (callback : CallbackId) :
    bindObject listen o n callback w =
      match Model.bindDeep o n callback w.model with
      | (.error fault, m) => (.error fault, { w with model := m })
      | (.ok (id, owner, v), m) =>
        (.ok id, World.holding (.object o :: .object owner :: v.holds) (listen (.value callback v))
          { w with model := m }) := by
  unfold bindObject
  cases hb : Model.bindDeep o n callback w.model with
  | mk r m =>
    cases r with
    | error fault => exact Act.edit_bind_of_error hb
    | ok r => exact Act.edit_bind_of_ok hb

end Scope

end LiveScope
