import LiveScope.Proofs.Release.Recording
import LiveScope.Proofs.Row.Binding

/-!
# Attempts to bind, and the turns of the client in them

An attempt to bind names, a formula or a row may call the client several times before it succeeds or
fails, and the client may do anything when it is called. To tell apart what an attempt itself did,
it is run once more with a listener that writes down what each of its turns makes of the model
(`Listener.traced`); `Attempt.turns` is what is written down then. That the attempt is the same
otherwise is `Attempt.run_traced`.
-/

namespace LiveScope

/-- A turn of a client: the models before and after it. -/
structure Turn where
  /-- The model when the client is called. -/
  before : Model
  /-- The model that it leaves. -/
  after : Model

namespace Turn

/-- Whether an entry is made in a turn. -/
def Makes (t : Turn) (e : Entry) : Prop := ¬ e.In t.before ∧ e.In t.after

/-- Whether an entry is taken away in a turn. -/
def Takes (t : Turn) (e : Entry) : Prop := e.In t.before ∧ ¬ e.In t.after

end Turn

variable {γ δ : Type}

/-- The same client, which also writes down its turns. -/
def Listener.traced (listen : Listener γ) : Listener (γ × List Turn) := fun n u =>
  let u' := listen n { model := u.model, client := u.client.1 }
  { model := u'.model, client := (u'.client, u.client.2 ++ [⟨u.model, u'.model⟩]) }

/-- The ways to bind several names at once. -/
inductive Attempt where
  /-- Names, each with a handler that tells of it. -/
  | fields (names : List ScopedName)
  /-- The source of an expression, with a row that supplies its properties. -/
  | expr (src : String) (this : Value)
  /-- A template, with a row that supplies its properties. -/
  | template (src : String) (this : Value)
  /-- A spec row. -/
  | row (json : Json)

namespace Attempt

/-- Attempts to bind to an object; the result is given to nobody if there is one. -/
def run (listen : Listener γ) (o : ObjectId) (k : CallbackId) : Attempt → Act γ Unit
  | fields names =>
    (fun _ => ()) <$> Act.edit (Model.bindFields o names fun n => .report ⟨k, some n.text⟩)
  | expr src this => (fun _ => ()) <$> Scope.bindExpr listen o src this ⟨k, none⟩
  | template src this => (fun _ => ()) <$> Scope.bindTemplate listen o src this ⟨k, none⟩
  | row json => (fun _ => ()) <$> BoundRow.bind listen o json k

/-- The turns of the client in an attempt. -/
def turns (listen : Listener γ) (o : ObjectId) (k : CallbackId) (a : Attempt) (w : World γ) :
    List Turn :=
  (a.run listen.traced o k { model := w.model, client := (w.client, []) }).2.client.2

end Attempt

/-! ## What a client knows beside -/

/-- The world as a client sees it that knows less. -/
def World.mapClient (g : δ → γ) (w : World δ) : World γ :=
  { model := w.model, client := g w.client }

/-- Holding things is the same for a client that knows less. -/
theorem World.mapClient_holding {g : δ → γ} {f : World δ → World δ} {f' : World γ → World γ}
    (h : ∀ u, (f u).mapClient g = f' (u.mapClient g)) (hs : List Hold) (w : World δ) :
    (w.holding hs f).mapClient g = (w.mapClient g).holding hs f' := by
  have hf := h (w.mapModel (·.holdAll hs))
  show ((f (w.mapModel (·.holdAll hs))).mapClient g).mapModel (·.releaseAll hs) = _
  rw [hf]
  rfl

section Natural

variable {g : δ → γ} {listen : Listener δ} {listen' : Listener γ}
  (h : ∀ n u, (listen n u).mapClient g = listen' n (u.mapClient g)) {o : ObjectId}

include h

/-- Binding an expression is the same for a client that knows less. -/
theorem Scope.bindFormula_mapClient (e : Expr) (row : Value) (sink : Sink) (w : World δ) :
    bindFormula listen' o e row sink (w.mapClient g) =
      ((bindFormula listen o e row sink w).1,
        (bindFormula listen o e row sink w).2.mapClient g) := by
  rw [bindFormula_eq, bindFormula_eq]
  rw [show (w.mapClient g).model = w.model from rfl]
  cases e.eval w.model (.object o) row with
  | error fault => rfl
  | ok v =>
    dsimp only
    cases Model.bindFields o e.fields (fun n => .recompute n.text ⟨e, o, row, sink⟩) w.model with
    | mk r m =>
      cases r with
      | error fault => rfl
      | ok id =>
        refine Prod.ext rfl ?_
        exact (World.mapClient_holding (h _) _ { w with model := m }).symm

/-- Binding the source of an expression is the same for a client that knows less. -/
theorem Scope.bindExpr_mapClient (src : String) (row : Value) (sink : Sink) (w : World δ) :
    bindExpr listen' o src row sink (w.mapClient g) =
      ((bindExpr listen o src row sink w).1, (bindExpr listen o src row sink w).2.mapClient g) := by
  cases hsrc : Expr.ofSource src with
  | error fault =>
    unfold bindExpr
    rw [hsrc]
    rfl
  | ok e =>
    rw [bindExpr_eq _ _ _ hsrc, bindExpr_eq _ _ _ hsrc]
    exact bindFormula_mapClient h e row sink w

/-- Binding a template is the same for a client that knows less. -/
theorem Scope.bindTemplate_mapClient (src : String) (row : Value) (sink : Sink) (w : World δ) :
    bindTemplate listen' o src row sink (w.mapClient g) =
      ((bindTemplate listen o src row sink w).1,
        (bindTemplate listen o src row sink w).2.mapClient g) := by
  cases hsrc : Expr.ofTemplate src with
  | error fault =>
    unfold bindTemplate
    rw [hsrc]
    rfl
  | ok e =>
    rw [bindTemplate_eq _ _ _ hsrc, bindTemplate_eq _ _ _ hsrc]
    exact bindFormula_mapClient h e row sink w

namespace BoundRow

variable {k : CallbackId} {this : Value}

/-- Binding the members of a row is the same for a client that knows less. -/
theorem bindMembers_mapClient (members : List (String × Json)) (row : BoundRow) (w : World δ) :
    bindMembers listen' k this members row (w.mapClient g) =
      ((bindMembers listen k this members row w).1,
        (bindMembers listen k this members row w).2.mapClient g) := by
  induction members generalizing row w with
  | nil => rfl
  | cons member members ih =>
    obtain ⟨name, member⟩ := member
    rw [bindMembers_cons, bindMembers_cons]
    cases source? member with
    | none => exact ih row w
    | some src =>
      dsimp only
      rw [Scope.bindTemplate_mapClient h]
      cases Scope.bindTemplate listen row.scope src this ⟨k, some name⟩ w with
      | mk r u =>
        cases r with
        | error fault =>
          refine Prod.ext rfl ?_
          show (listen' _ (u.mapClient g)).mapModel row.drop = _
          rw [← h]
          rfl
        | ok bound => exact ih (row.extend name bound) (u.mapModel (·.holdAll bound.value.holds))

/-- Binding a row is the same for a client that knows less. -/
theorem bind_mapClient (json : Json) (w : World δ) :
    bind listen' o json k (w.mapClient g) =
      ((bind listen o json k w).1, (bind listen o json k w).2.mapClient g) := by
  cases json with
  | object members =>
    rw [bind_eq, bind_eq]
    let made := w.model.ofJson (.object members)
    let holds := Hold.object o :: made.1.holds
    let start : World δ := { w with model := made.2.holdAll holds }
    have hmembers : bindMembers listen' k made.1 members ⟨o, [], Dict.empty⟩ (start.mapClient g) =
        ((bindMembers listen k made.1 members ⟨o, [], Dict.empty⟩ start).1,
          (bindMembers listen k made.1 members ⟨o, [], Dict.empty⟩ start).2.mapClient g) :=
      bindMembers_mapClient h members _ start
    exact Prod.ext (congrArg (·.1) hmembers) (congrArg
      (fun r : Except Fault BoundRow × World γ => r.2.mapModel (·.releaseAll holds)) hmembers)
  | null | bool | integer | float | text | array => rfl

end BoundRow

end Natural

/-- To write down the turns changes nothing else. -/
theorem Listener.mapClient_traced (listen : Listener γ) (n : Notice)
    (u : World (γ × List Turn)) :
    (listen.traced n u).mapClient Prod.fst = listen n (u.mapClient Prod.fst) :=
  rfl

/-- An attempt is the same when the turns are written down. -/
theorem Attempt.run_traced (listen : Listener γ) (o : ObjectId) (k : CallbackId) (a : Attempt)
    (w : World (γ × List Turn)) :
    a.run listen o k (w.mapClient Prod.fst) =
      ((a.run listen.traced o k w).1, (a.run listen.traced o k w).2.mapClient Prod.fst) := by
  have h := listen.mapClient_traced
  cases a with
  | fields names =>
    simp only [run, Subscription.map_eq]
    rfl
  | expr src this => simp only [run, Subscription.map_eq, Scope.bindExpr_mapClient h]
  | template src this => simp only [run, Subscription.map_eq, Scope.bindTemplate_mapClient h]
  | row json => simp only [run, Subscription.map_eq, BoundRow.bind_mapClient h]

end LiveScope
