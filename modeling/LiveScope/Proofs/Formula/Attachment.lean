import LiveScope.Proofs.Formula.Places
import LiveScope.Proofs.Formula.Tracking
import LiveScope.Proofs.World.Announcing
import LiveScope.Proofs.World.Holding
import LiveScope.Proofs.World.Journals

/-!
# What an attached formula is told of

A formula that is bound stays attached to where its fields belonged at that moment, while it is
evaluated over whatever encloses what when it is called. `Formula.Answers` says which writes call
it, and what it does then. What follows for a run is said with a journal (`Journal`), in which the
client notes what it writes and what it is told, each with the model in which that happens:
`Formula.Heeded` says that the function of the formula was told what comes of evaluating it after
anything was last written where the formula is attached.
-/

namespace LiveScope

variable {γ : Type} {listen : Listener γ} {o : ObjectId}

/-- A call leaves what the one who is called makes of what it finds, a key and a value that are
announced. -/
theorem Announces.after_eq {announcements : List (String × Value)} {w w' : World γ}
    {calls : List (Call γ)} (h : Announces listen o announcements w calls w') :
    ∀ call ∈ calls, ∃ a ∈ announcements,
      call.after = call.recipient.call listen o a.1 a.2 call.before := by
  induction h with
  | done => exact nofun
  | told _ dispatch _ ih =>
    intro call hcall
    rcases List.mem_append.1 hcall with hcall | hcall
    · exact ⟨_, List.mem_cons_self, dispatch.after_eq call hcall⟩
    · obtain ⟨a, ha, hafter⟩ := ih call hcall
      exact ⟨a, List.mem_cons_of_mem _ ha, hafter⟩
  | untold _ _ ih =>
    intro call hcall
    obtain ⟨a, ha, hafter⟩ := ih call hcall
    exact ⟨a, List.mem_cons_of_mem _ ha, hafter⟩

namespace Formula

/-! ## Calls -/

/-- What the handlers of a formula have to do with the calls that an operation on an object makes.
-/
structure Answers (f : Formula) (made : ObjectId → List Connection) (listen : Listener γ)
    (o : ObjectId) (op : Operation) (w : World γ) (calls : List (Call γ)) : Prop where
  /-- Handlers of keys that are not told of are not called. -/
  told : ∀ c ∈ made o, ∀ call ∈ calls, call.IsOf c → op.Tells w.model o c.key
  /-- A handler that is called evaluates the formula in the world that it finds. -/
  evaluates : ∀ c ∈ made o, ∀ call ∈ calls, call.IsOf c →
    ∃ field, call.after = f.update listen field call.before
  /-- A handler of a key that is told of is called, unless it is taken off. -/
  called : ∀ c ∈ made o, op.Tells w.model o c.key → ∃ call ∈ calls, call.IsOf c ∨ call.Removes o c

/-- The handlers of a formula that is attached answer like this to any operation. -/
theorem Attached.answers {f : Formula} {m : Model} {made : ObjectId → List Connection}
    (h : f.Attached m made) (hlisten : ∀ n (u : World γ), u.model.Renews (listen n u).model)
    {op : Operation} {w : World γ} {calls : List (Call γ)} (hcalls : op.Calls listen o w calls)
    (hconnected : ∀ c ∈ made o, c ∈ w.model.connectionsOf o ∧ w.model.Opens o c.key) :
    f.Answers made listen o op w calls := by
  obtain ⟨μ, w', hμ, hannounces, _⟩ := hcalls
  refine ⟨fun c _ call hcall hof => ?_, fun c hc call hcall hof => ?_, fun c hc htells => ?_⟩
  · exact ⟨μ, hμ, hannounces.key_of_called hcall hof⟩
  · obtain ⟨field, hhandler⟩ := h.runs o c hc
    obtain ⟨a, _, hafter⟩ := hannounces.after_eq call hcall
    rw [show call.recipient = .handler c from hof] at hafter
    have hrun : Recipient.call listen o a.1 a.2 (.handler c) call.before =
        c.handler.run listen a.2 call.before := rfl
    rw [hrun, hhandler] at hafter
    exact ⟨field, hafter⟩
  · obtain ⟨μ', hμ', hannounced⟩ := htells
    obtain rfl := Except.ok.inj (hμ.symm.trans hμ')
    -- The content was replaced before the first announcement, but no table was.
    obtain ⟨hc, hopens⟩ := hconnected c hc
    refine hannounces.called_or_removed hlisten (fun keys hkeys => hopens keys ?_) ?_ hannounced
    · exact (Model.keysOf_setStore w.model o μ.store o).symm.trans hkeys
    · show c ∈ (w.model.setStore o μ.store).connectionsOf o
      rwa [Model.connectionsOf_setStore]

end Formula

/-! ## Journals -/

namespace Formula

variable (f : Formula) (m : Model)

/-- Whether a notice is what comes of evaluating a formula, `now` being the model in which something
is held for telling it. -/
def Gives (n : Notice) (now : Model) : Prop :=
  ∃ m hs, now = Model.holdAll m hs ∧
    match f.expr.eval m (.object f.scope) f.row with
    | .ok v => n = f.sink.notice v
    | .error fault => ∃ field, n = .warning (.reevaluation field fault f.expr)

/-- Whether something that is noted does not concern a formula that was bound in a model: its
function is not told, and nothing is written where its fields belonged then. -/
def Ignores : Note → Prop
  | .wrote o op before => ∀ key, f.Place m o key → ¬ op.Tells before o key
  | .told n _ => f.sink.heard? n = none

/-- Whether a formula that was bound in a model was evaluated, its function being told what came of
it, and nothing that concerns it was noted since. -/
def Heeded (journal : Journal) : Prop :=
  ∃ recent n now earlier, journal = recent ++ .told n now :: earlier ∧ f.Gives n now ∧
    ∀ e ∈ recent, f.Ignores m e

/-- A change that leaves to a formula its connections, its function, and that its scope is held. -/
structure Leaves (m m' : Model) : Prop where
  /-- Numbers that were given out stay given out, and tables are as before but for new numbers. -/
  renews : m.Renews m'
  /-- The same connections evaluate the formula. -/
  runs : ∀ o c, f.Runs c.handler → (c ∈ m'.connectionsOf o ↔ c ∈ m.connectionsOf o)
  /-- Its function is left to it, if it was. -/
  exclusive : f.Exclusive m → f.Exclusive m'
  /-- Its scope is held as often at least. -/
  holds : m.holds.count (.object f.scope) ≤ m'.holds.count (.object f.scope)

/-- From one world to another by writes, each performed with a listener that goes on in the same way
whenever it is told something, and by changes in between that leave a formula bound. -/
inductive Proceeds (f : Formula) : World Journal → World Journal → Prop
  | done (w : World Journal) : Proceeds f w w
  | write {listen : Listener Journal} {o : ObjectId} {op : Operation} {w w' : World Journal}
      (reacts : ∀ n u, Proceeds f (u.hear n) (listen n u))
      (rest : Proceeds f (op.run listen o (w.begin o op)) w') : Proceeds f w w'
  | change {w w' : World Journal} {m : Model} (leaves : f.Leaves w.model m)
      (rest : Proceeds f { w with model := m } w') : Proceeds f w w'

variable {f m} {w w' : World Journal} {journal : Journal} {e : Note}

/-- What does not concern a formula leaves it heeded. -/
theorem Heeded.cons (h : f.Heeded m journal) (he : f.Ignores m e) : f.Heeded m (e :: journal) := by
  obtain ⟨recent, n, now, earlier, rfl, hgives, hrecent⟩ := h
  exact ⟨e :: recent, n, now, earlier, rfl, hgives, List.forall_mem_cons.2 ⟨he, hrecent⟩⟩

/-- A formula is heeded when its function is told what comes of evaluating it. -/
theorem Gives.heeded {n : Notice} {now : Model} (h : f.Gives n now) (m : Model)
    (journal : Journal) : f.Heeded m (.told n now :: journal) :=
  ⟨[], n, now, journal, rfl, h, nofun⟩

/-- The numbers of handlers stay in order over a run. -/
theorem Proceeds.renews (h : f.Proceeds w w') : w.model.Renews w'.model := by
  induction h with
  | done w => exact Model.Renews.steady.refl w.model
  | @write listen o op w w' _ _ ih ihrest =>
    have hrun : (w.begin o op).model.Renews (op.run listen o (w.begin o op)).model :=
      Operation.run_within World.renews_steady World.renews_attends ih fun μ _ =>
        .setStore _ μ.object μ.store
    exact Model.Renews.steady.trans hrun ihrest
  | change leaves _ ih => exact Model.Renews.steady.trans leaves.renews ih

end Formula

end LiveScope
