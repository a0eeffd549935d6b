import LiveScope.Proofs.Model.Targets
import LiveScope.Proofs.Row.Leaving

/-!
# Numbers of subscriptions

A binding gives out the numbers of its handlers, watchers and registrations one after the other
(`Model.Advances`), and each releases one entry while it is in use (`Model.TakesOne`). Once it is
out of use it releases nothing, whatever has been subscribed since (`Model.Outdates`); rows hold
such numbers, too. So it is in every run (`Moves.numbers_unique`), also after all that was bound to
an object has been released.
-/

namespace LiveScope

namespace Model

variable {m m' : Model} {o : ObjectId} {n : Nat}

/-- Each number that an object gives out is above all that it has given out before. -/
structure Advances (m : Model) (o : ObjectId) : Prop where
  /-- A connection gets the next number. -/
  connect : ∀ key handler, (m.connect o key handler).1 = ⟨key, m.lastIdOf o + 1⟩ ∧
    (m.connect o key handler).2.lastIdOf o = m.lastIdOf o + 1
  /-- So does a watcher. -/
  watch : ∀ watch, (m.watch o watch).1 = m.lastIdOf o + 1 ∧
    (m.watch o watch).2.lastIdOf o = m.lastIdOf o + 1
  /-- So does a registration. -/
  register : ∀ connections deep, (m.register o connections deep).1 = m.lastIdOf o + 1 ∧
    (m.register o connections deep).2.lastIdOf o = m.lastIdOf o + 1

/-- To release by a number at an object succeeds if the number is in use, and then takes one entry
out of one table; otherwise nothing is done. -/
structure TakesOne (m : Model) (o : ObjectId) : Prop where
  /-- A number that is in use takes one connection out. -/
  connected : ∀ id, m.isConnected o id = true → (m.disconnect o id).1 = true ∧
    ∃ before c after, (m.bindingOf o).connections = before ++ c :: after ∧ c.key = id.key ∧
      c.seq = id.seq ∧
      (m.disconnect o id).2.bindingOf o = { m.bindingOf o with connections := before ++ after }
  /-- It takes its handler out of the table by key. -/
  keyed : ∀ id, (m.bindingOf o).targets.disconnect id =
    (m.isConnected o id, ((m.disconnect o id).2.bindingOf o).targets)
  /-- A number that is not in use takes none out. -/
  disconnected : ∀ id, m.isConnected o id = false → m.disconnect o id = (false, m)
  /-- The number of a watcher takes one watcher out. -/
  watching : ∀ n, m.isWatching o n = true → (m.unwatch o n).1 = true ∧
    ∃ before x after, (m.bindingOf o).watchers = before ++ x :: after ∧ x.seq = n ∧
      (m.unwatch o n).2.bindingOf o = { m.bindingOf o with watchers := before ++ after }
  /-- A number that is none takes none out. -/
  unwatched : ∀ n, m.isWatching o n = false → m.unwatch o n = (false, m)
  /-- The number of a registration takes one registration out, and none of another object. -/
  registered : ∀ n r, m.registration? o n = some r → (m.unbind o n).1 = true ∧ r.id = n ∧
    (∃ before after, m.registrationsOf o = before ++ r :: after ∧
      (m.unbind o n).2.registrationsOf o = before ++ after) ∧
    ∀ p, p ≠ o → (m.unbind o n).2.registrationsOf p = m.registrationsOf p
  /-- A number that is none takes none out. -/
  unbound : ∀ n, m.registration? o n = none → m.unbind o n = (false, m)

/-- The numbers that an object had given out by `m` and that were out of use then release nothing in
`m'`. A row with such numbers is released as if it did not have them, and so not at all if it has no
others. -/
structure Outdates (m m' : Model) (o : ObjectId) : Prop where
  /-- Such a number disconnects nothing. -/
  connection : ∀ id, id.seq ≤ m.lastIdOf o → m.isConnected o id = false →
    m'.disconnect o id = (false, m')
  /-- It removes no watcher. -/
  watcher : ∀ n, n ≤ m.lastIdOf o → m.isWatching o n = false → m'.unwatch o n = (false, m')
  /-- It releases no registration. -/
  registration : ∀ n, n ≤ m.lastIdOf o → m.registration? o n = none →
    m'.unbind o n = (false, m')
  /-- A row is released as if it had only the numbers that were in use. -/
  row : ∀ row : BoundRow, row.scope = o → (∀ n ∈ row.ids, n ≤ m.lastIdOf o) →
    row.undo m' = BoundRow.undo
      { row with ids := row.ids.filter fun n => (m.registration? o n).isSome } m'

/-- The last number of an object is changed with its binding. -/
theorem lastIdOf_modifyBinding {f : Binding → Binding} (hb : m.isBound o = true) :
    (m.modifyBinding o f).lastIdOf o = (f (m.bindingOf o)).lastId := by
  rw [lastIdOf_eq, bindingOf_modifyBinding_self hb]

/-- The numbers that an object with a binding gives out ascend. -/
theorem advances (hb : m.isBound o = true) : m.Advances o := by
  have hlast : (m.bindingOf o).nextId = m.lastIdOf o + 1 := by
    rw [lastIdOf_eq]
    rfl
  exact {
    connect := fun key _ => ⟨congrArg (SubscriptionId.mk key) (nextId_eq m o),
      (lastIdOf_modifyBinding hb).trans hlast⟩
    watch := fun _ => ⟨nextId_eq m o, (lastIdOf_modifyBinding hb).trans hlast⟩
    register := fun _ _ => ⟨nextId_eq m o, (lastIdOf_modifyBinding hb).trans hlast⟩ }

/-- To disconnect a handler is to remove it from the table of its key. -/
theorem targets_disconnect (m : Model) (o : ObjectId) (id : SubscriptionId) :
    (m.bindingOf o).targets.disconnect id =
      (m.isConnected o id, ((m.disconnect o id).2.bindingOf o).targets) := by
  have hlive : ((m.bindingOf o).targets.disconnect id).1 = m.isConnected o id := by
    rw [← Binding.any_handlersOf]
    unfold isConnected handlersOf bindingOf
    cases m.binding? o <;> rfl
  have hrest : ((m.bindingOf o).targets.disconnect id).2 =
      ((m.disconnect o id).2.bindingOf o).targets := by
    rw [← Binding.targets_disconnect]
    unfold disconnect
    rw [bindingOf_modifyBinding]
    split
    · rfl
    · rename_i hb
      -- An object without a binding has no handlers to remove.
      have hnone : m.binding? o = none := by
        cases h : m.binding? o with
        | none => rfl
        | some => exact absurd ⟨rfl, by unfold isBound; rw [h]; rfl⟩ hb
      unfold bindingOf
      rw [hnone]
      rfl
  exact Prod.ext hlive hrest

/-- Where numbers are in order, each releases one entry. -/
theorem takesOne (hn : m.Numbered) (o : ObjectId) : m.TakesOne o where
  connected _ h := disconnect_live hn h
  keyed := targets_disconnect m o
  disconnected _ h := disconnect_of_not h
  watching _ h := unwatch_live hn h
  unwatched _ h := unwatch_of_not h
  registered _ _ h := unbind_live hn h
  unbound _ h := unbind_of_none h

/-- Numbers of a row that are out of use do nothing. -/
theorem Renews.undo_stale (h : m.Renews m') {row : BoundRow}
    (hissued : ∀ n ∈ row.ids, n ≤ m.lastIdOf row.scope) :
    row.undo m' = BoundRow.undo
      { row with ids := row.ids.filter fun n => (m.registration? row.scope n).isSome } m' := by
  obtain ⟨o, ids, values⟩ := row
  have hfold : ∀ m' : Model, m.Renews m' → ids.foldl (fun m n => (m.unbind o n).2) m' =
      (ids.filter fun n => (m.registration? o n).isSome).foldl
        (fun m n => (m.unbind o n).2) m' := by
    induction ids with
    | nil => exact fun _ _ => rfl
    | cons n ids ih =>
      intro m' h
      have ih := ih fun n hn => hissued n (List.mem_cons_of_mem _ hn)
      rw [List.foldl_cons, List.filter_cons]
      split
      · exact ih _ (Renews.steady.trans h (upholds_unbind m' o n).renews)
      · rename_i hgone
        rw [h.unbind_stale (hissued n List.mem_cons_self) (by simpa using hgone)]
        exact ih m' h
  unfold BoundRow.undo
  split
  · exact hfold m' h
  · rfl

/-- What is out of use stays so. -/
theorem Renews.outdates (h : m.Renews m') (o : ObjectId) : m.Outdates m' o where
  connection _ hle hgone := h.disconnect_stale hle hgone
  watcher _ hle hgone := h.unwatch_stale hle hgone
  registration _ hle hgone := h.unbind_stale hle hgone
  row row := by
    rintro rfl hissued
    exact h.undo_stale hissued

/-- Once all that is bound to an object has been released, none of its numbers is in use. -/
theorem gone_unbindAll (m : Model) (o : ObjectId) :
    (∀ id, (m.unbindAll o).isConnected o id = false) ∧
      ∀ n, (m.unbindAll o).isWatching o n = false ∧
        (m.unbindAll o).registration? o n = none := by
  obtain ⟨hconnections, hwatchers⟩ := empty_unbindAll m o
  refine ⟨fun id => ?_, fun n => ⟨?_, ?_⟩⟩
  · rw [Bool.eq_false_iff]
    intro h
    obtain ⟨c, hc, _⟩ := exists_of_isConnected h
    rw [hconnections] at hc
    cases hc
  · unfold isWatching
    rw [hwatchers]
    rfl
  · rw [registration?_eq, registrationsOf_unbindAll, if_pos rfl]
    rfl

end Model

variable {w w' : World History} {o : ObjectId}

/-- The numbers of a row that has been bound were given out by its object. -/
theorem BoundRow.issued {listen : Listener History} {json : Json} {k : CallbackId} {row : BoundRow}
    (moves : Moves Demand ⟨{}, []⟩ w) (hb : w.model.isBound o = true)
    (hlisten : ∀ n u, Moves Demand (u.record (.told n)) (listen n u))
    (h : BoundRow.bind listen o json k w = (.ok row, w')) :
    row.scope = o ∧ ∀ n ∈ row.ids, n ≤ w'.model.lastIdOf o := by
  obtain ⟨hscope, hbound⟩ :=
    underway_of_ok (fun n u => (hlisten n u).upholds) (tidy_of_moves moves) hb h
  exact ⟨hscope, hbound.issued⟩

/-- In every run the tables of an object are in order, each number that is in use releases one
entry, new numbers are above all others, and those that are out of use, whether of handlers,
watchers, registrations or rows, do nothing from then on; after all is released this is so for each
number that was given out. -/
theorem Moves.numbers_unique (moves : Moves Demand ⟨{}, []⟩ w) (o : ObjectId) :
    (w.model.bindingOf o).Kept ∧ w.model.TakesOne o ∧
      (w.model.isBound o = true → w.model.Advances o ∧
        ∀ (listen : Listener History) json k row w',
          (∀ n u, Moves Demand (u.record (.told n)) (listen n u)) →
          BoundRow.bind listen o json k w = (.ok row, w') →
            row.scope = o ∧ ∀ n ∈ row.ids, n ≤ w'.model.lastIdOf o) ∧
      (∀ w', Moves Demand w w' →
        w.model.lastIdOf o ≤ w'.model.lastIdOf o ∧ w.model.Outdates w'.model o) ∧
      ∀ w', Moves Demand (w.mapModel (·.unbindAll o)) w' →
        (∀ n ≤ w.model.lastIdOf o, (∀ key, w'.model.disconnect o ⟨key, n⟩ = (false, w'.model)) ∧
          w'.model.unwatch o n = (false, w'.model) ∧ w'.model.unbind o n = (false, w'.model)) ∧
        ∀ row : BoundRow, row.scope = o → (∀ n ∈ row.ids, n ≤ w.model.lastIdOf o) →
          row.undo w'.model = w'.model ∧ row.drop w'.model = w'.model.releaseAll row.holds := by
  have hnumbered : w.model.Numbered := (tidy_of_moves moves).numbered
  refine ⟨(hnumbered o).kept, Model.takesOne hnumbered o, fun hb => ⟨Model.advances hb,
    fun _ _ _ _ _ hlisten h => BoundRow.issued moves hb hlisten h⟩, fun w' later => ?_,
    fun w' later => ?_⟩
  · have hrenews : w.model.Renews w'.model := later.upholds.renews
    exact ⟨hrenews.lastIdOf o, hrenews.outdates o⟩
  · -- The numbers are out of use when all has been released, and stay so.
    have hreleased := (Model.upholds_unbindAll w.model o).renews.lastIdOf o
    have houtdated : (w.model.unbindAll o).Outdates w'.model o := later.upholds.renews.outdates o
    obtain ⟨hconnections, hothers⟩ := Model.gone_unbindAll w.model o
    refine ⟨fun n hn => ?_, fun row hscope hrow => ?_⟩
    · have hn := Nat.le_trans hn hreleased
      exact ⟨fun key => houtdated.connection ⟨key, n⟩ hn (hconnections _),
        houtdated.watcher n hn (hothers n).1, houtdated.registration n hn (hothers n).2⟩
    · have hundo : row.undo w'.model = w'.model := by
        rw [houtdated.row row hscope fun n hn => Nat.le_trans (hrow n hn) hreleased,
          List.filter_eq_nil_iff.2 fun n _ => by rw [(hothers n).2]; exact Bool.false_ne_true]
        unfold BoundRow.undo
        split <;> rfl
      refine ⟨hundo, ?_⟩
      unfold BoundRow.drop
      rw [hundo]

/-- An object to which a handler is connected. -/
def bell : World History :=
  ((Subscription.connect "rung").run noting 0 0
    ⟨(Model.add {} (.map .empty)).2.ensureBinding 0, []⟩).2

/-- The object when the handler has been released and another one connected. -/
def bellAgain : World History :=
  ((Subscription.connect "rung").run noting 0 1 (bell.mapModel (·.unbindAll 0))).2

/-- The number of the first handler does nothing to the second one. -/
theorem Moves.numbers_unique_bell :
    bell.model.isConnected 0 ⟨"rung", 1⟩ = true ∧
      bellAgain.model.isConnected 0 ⟨"rung", 2⟩ = true ∧
      bellAgain.model.disconnect 0 ⟨"rung", 1⟩ = (false, bellAgain.model) := by
  have hnoting (n : Notice) (u : World History) :
      Moves Demand (u.record (.told n)) (noting n u) := .done _
  have moves : Moves Demand ⟨{}, []⟩ bell :=
    .next hnoting (.add (s := .map .empty) nofun) <| .next hnoting (.proxy (o := 0)) <|
      .next hnoting (.subscribe (o := 0) (k := 0) (s := .connect "rung") (by decide)) (.done _)
  have again : Moves Demand (bell.mapModel (·.unbindAll 0)) bellAgain :=
    .next hnoting (.subscribe (o := 0) (k := 1) (s := .connect "rung") (by decide)) (.done _)
  obtain ⟨_, _, _, _, hreleased⟩ := Moves.numbers_unique moves 0
  exact ⟨by decide, by decide, ((hreleased bellAgain again).1 1 (by decide)).1 "rung"⟩

end LiveScope
