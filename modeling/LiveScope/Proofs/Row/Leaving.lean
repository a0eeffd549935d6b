import LiveScope.Proofs.Row.Rollback

/-!
# What a row leaves when it is released

A row that has been bound holds the numbers of registrations at its object, and what it subscribed
to belongs to these, at whatever object it is connected (`BoundRow.underway_of_ok`). So when the row
is released while its object is alive, nothing is left of it anywhere, and nothing comes back
(`BoundRow.nothing_left`). It is not so when its object has died before: then the row has no way to
the registrations, and its handlers stay with the enclosing scopes for as long as these live
(`BoundRow.not_nothing_left`).
-/

namespace LiveScope

namespace BoundRow

variable {o : ObjectId} {json : Json} {k : CallbackId} {row : BoundRow} {m : Model}

/-- When a row has been bound, its numbers account for what is in the tables. -/
theorem underway_of_ok {γ : Type} {listen : Listener γ} {w w' : World γ}
    (hlisten : ∀ n (u : World γ), u.model.Upholds (listen n u).model) (ht : w.model.Tidy)
    (hb : w.model.isBound o = true) (h : bind listen o json k w = (.ok row, w')) :
    row.scope = o ∧
      Underway w.model ((Attempt.row json).turns listen o k w) o row.ids w'.model := by
  let start : World (γ × List Turn) := { model := w.model, client := (w.client, []) }
  let traced := bind listen.traced o json k start
  have hsame : (Except.ok row, w') = (traced.1, traced.2.mapClient Prod.fst) :=
    h.symm.trans (bind_mapClient listen.mapClient_traced json start)
  obtain ⟨hok, hw'⟩ := Prod.mk.inj hsame
  have hturns : (Attempt.row json).turns listen o k w = traced.2.client.2 :=
    congrArg (·.2.client.2) (Subscription.map_eq (fun _ => ()) (bind listen.traced o json k) start)
  have hconcluded : Concluded w.model o traced :=
    bind_concludes hlisten (u := start) ht hb rfl json k
  rw [show traced = (.ok row, traced.2) from Prod.ext hok.symm rfl] at hconcluded
  rw [hturns, hw']
  exact hconcluded

/-- What is left of the tables when a row is given up is what is left when it is released. -/
theorem in_drop (row : BoundRow) (m : Model) (e : Entry) : e.In (row.drop m) ↔ e.In (row.undo m) :=
  Entry.in_releaseAll (row.undo m) row.holds e

/-- In every run, once a row has been released or given up while its object was alive, all that is
in the tables of any binding was there before the row was bound, or the client made it when it was
called in between, or it is newer than the row. -/
theorem nothing_left {w w₁ w₂ w₃ : World History} {listen : Listener History}
    (moves : Moves Demand ⟨{}, []⟩ w) (hb : w.model.isBound o = true)
    (hlisten : ∀ n u, Moves Demand (u.record (.told n)) (listen n u))
    (hbind : bind listen o json k w = (.ok row, w₁)) (between : Moves Demand w₁ w₂)
    (halive : w₂.model.isAlive o = true)
    (hreleased : m = (row.unbind w₂.model).2 ∨ m = row.drop w₂.model)
    (after : Moves Demand { w₂ with model := m } w₃) (e : Entry) (he : e.In w₃.model) :
    e.In w.model ∨ (∃ t ∈ (Attempt.row json).turns listen o k w, t.Makes e) ∨
      w₁.model.lastIdOf e.object < e.number := by
  obtain ⟨rfl, hbound⟩ :=
    underway_of_ok (fun n u => (hlisten n u).upholds) (tidy_of_moves moves) hb hbind
  have hbetween : w₁.model.Renews w₂.model := between.upholds.renews
  have hsame (e : Entry) : e.In m ↔ e.In (row.undo w₂.model) := by
    rcases hreleased with rfl | rfl
    · rfl
    · exact in_drop row w₂.model e
  have hreleases : w₂.model.Renews m := by
    rcases hreleased with rfl | rfl
    · exact (row.upholds_undo w₂.model).renews
    · exact (row.upholds_drop w₂.model).renews
  by_cases hnew : w₁.model.lastIdOf e.object < e.number
  · exact .inr (.inr hnew)
  -- An entry that is not new has been there since the row was bound, also after its release.
  have hold : e.number ≤ w₁.model.lastIdOf e.object := Nat.not_lt.1 hnew
  have hleft : e.In m := he.of_renews after.upholds.renews
    (Nat.le_trans hold (Nat.le_trans (hbetween.lastIdOf _) (hreleases.lastIdOf _)))
  -- What the client did in between counts as one more turn.
  rcases ((hbound.turn between.upholds).undo halive).installed e ((hsame e).1 hleft) with
    hfirst | ⟨t, hmem, hmakes⟩
  · exact .inl hfirst
  · rcases List.mem_append.1 hmem with hmem | hmem
    · exact .inr (.inl ⟨t, hmem, hmakes⟩)
    · obtain rfl := List.mem_singleton.1 hmem
      exact absurd (hmakes.2.of_renews hbetween hold) hmakes.1

/-- A client that changes nothing has no turns that change anything. -/
theorem turns_of_silent {γ : Type} {listen : Listener γ}
    (hsilent : ∀ n (u : World γ), (listen n u).model = u.model) {w : World γ} :
    ∀ t ∈ (Attempt.row json).turns listen o k w, t.after = t.before := by
  let start : World (γ × List Turn) := { model := w.model, client := (w.client, []) }
  have hturns : (Attempt.row json).turns listen o k w =
      (bind listen.traced o json k start).2.client.2 :=
    congrArg (·.2.client.2) (Subscription.map_eq (fun _ => ()) (bind listen.traced o json k) start)
  have hwithin : (∀ t ∈ start.client.2, t.after = t.before) →
      ∀ t ∈ (bind listen.traced o json k start).2.client.2, t.after = t.before := bind_within
    (o := o) (I := fun _ _ => True)
    (J := fun u u' : World (γ × List Turn) => (∀ t ∈ u.client.2, t.after = t.before) →
      ∀ t ∈ u'.client.2, t.after = t.before)
    ⟨fun _ => id, fun h h' => h' ∘ h⟩ (fun _ _ => id) (fun n u hu t ht => ?_)
    (fun _ => ⟨fun _ _ => trivial, fun _ => trivial, fun _ _ => trivial, fun _ _ => trivial⟩)
    (fun _ _ _ => id) (fun _ _ _ => trivial) (fun _ _ => trivial) json k start
  · rw [hturns]
    exact hwithin nofun
  · rcases List.mem_append.1 ht with ht | ht
    · exact hu t ht
    · obtain rfl := List.mem_singleton.1 ht
      exact hsilent n ⟨u.model, u.client.1⟩

/-- A client that only remembers changes nothing. -/
theorem silent_noting (n : Notice) (u : World History) : (noting n u).model = u.model := rfl

/-- A row that shows the lamp of the house. -/
def lampRow : Json := .object [("a", .text "$$lamp")]

/-- The house when the row has been bound to its room. -/
def roomBound : World History := (bind noting 1 lampRow 0 house).2

/-- The row can be bound, and then it has a handler in the table of the house. -/
theorem bind_lampRow : ∃ row, bind noting 1 lampRow 0 house = (.ok row, roomBound) ∧
    (roomBound.model.connectionsOf 0).length = 1 := by
  have hok : (bind noting 1 lampRow 0 house).1.isOk = true := by decide +kernel
  obtain ⟨row, hrow⟩ := Act.ok_of_isOk hok
  exact ⟨row, hrow, by decide +kernel⟩

/-- When the row is given up, nothing is left of it. -/
theorem nothing_left_lamp : ∃ row, bind noting 1 lampRow 0 house = (.ok row, roomBound) ∧
    (row.drop roomBound.model).connectionsOf 0 = [] ∧
    ∀ e : Entry, e.In (row.drop roomBound.model) →
      e.In house.model ∨ roomBound.model.lastIdOf e.object < e.number := by
  obtain ⟨row, hrow, _⟩ := bind_lampRow
  have hleft {e : Entry} (he : e.In (row.drop roomBound.model)) :
      e.In house.model ∨ roomBound.model.lastIdOf e.object < e.number := by
    rcases nothing_left moves_house (by decide) (fun _ _ => .done _) hrow (.done _)
      (by decide +kernel) (.inr rfl) (.done _) e he with hold | ⟨t, ht, hnew, hmade⟩ | hnew
    · exact .inl hold
    · rw [turns_of_silent silent_noting t ht] at hmade
      exact absurd hmade hnew
    · exact .inr hnew
  have hnone : (bind noting 1 lampRow 0 house).1.toOption.map
      (fun row => ((row.drop roomBound.model).connectionsOf 0).length) = some 0 := by
    decide +kernel
  rw [hrow] at hnone
  exact ⟨row, hrow, List.length_eq_zero_iff.1 (Option.some.inj hnone), fun _ => hleft⟩

/-- The house when the room has died before its row is given up. -/
def roomGone : World History := roomBound.mapModel fun m => { m with holds := [.object 0] }

/-- Then the row's handler is still in the table of the house after the row has been given up,
though it was not there before the row was bound, and the client changed nothing. -/
theorem not_nothing_left : ∃ row, bind noting 1 lampRow 0 house = (.ok row, roomBound) ∧
    Moves Demand roomBound roomGone ∧ roomGone.model.isAlive 1 = false ∧
    (row.drop roomGone.model).isAlive 0 = true ∧ ∃ e : Entry, e.object = 0 ∧
      e.In (row.drop roomGone.model) ∧ ¬ (e.In house.model ∨
        (∃ t ∈ (Attempt.row lampRow).turns noting 1 0 house, t.Makes e) ∨
        roomBound.model.lastIdOf e.object < e.number) := by
  obtain ⟨row, hrow, hlength⟩ := bind_lampRow
  obtain ⟨c, hc⟩ := List.length_eq_one_iff.1 hlength
  have hdead : roomGone.model.isAlive 1 = false := by decide +kernel
  have halive : (bind noting 1 lampRow 0 house).1.toOption.map
      (fun row => (row.drop roomGone.model).isAlive 0) = some true := by decide +kernel
  rw [hrow] at halive
  have hupholds (n : Notice) (u : World History) : u.model.Upholds (noting n u).model :=
    Model.Upholds.steady.refl u.model
  obtain ⟨hscope, hbound⟩ :=
    underway_of_ok hupholds (tidy_of_moves moves_house) (by decide) hrow
  have hin : (Entry.connection 0 c).In roomBound.model := by
    show c ∈ roomBound.model.connectionsOf 0
    rw [hc]
    exact List.mem_singleton_self c
  have hstays : (Entry.connection 0 c).In (row.drop roomGone.model) := by
    rw [in_drop]
    unfold undo
    -- The object of the row is dead, so that nothing is released.
    rw [hscope, hdead]
    exact hin
  refine ⟨row, hrow, .next (fun n u => .done (noting n u)) .hold (.done _), hdead,
    Option.some.inj halive, _, rfl, hstays, ?_⟩
  rintro (hold | ⟨t, ht, hnew, hmade⟩ | hnew)
  · have hnone : house.model.connectionsOf 0 = [] := by decide
    have hmem : c ∈ house.model.connectionsOf 0 := hold
    rw [hnone] at hmem
    cases hmem
  · rw [turns_of_silent silent_noting t ht] at hmade
    exact hnew hmade
  · exact Nat.not_lt.2 (hin.number_le hbound.tidy.numbered) hnew

end BoundRow

end LiveScope
