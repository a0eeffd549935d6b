import LiveScope.Proofs.Row.Accounting
import LiveScope.Proofs.World.Dispatching

/-!
# Attempts that fail leave nothing behind

An attempt to bind a row fails at one of its members, when others have been bound and the client has
been told of them. `Concluded` says how an attempt comes out: with a row whose numbers account for
the tables, or rolled back. Binding the members of a row one after the other comes out so
(`BoundRow.bindMembers_concludes`), and so does binding the row. `Attempt.rolledBack_of_error` says
the same of every attempt in a run.
-/

namespace LiveScope

variable {γ : Type} {m m' m₀ : Model} {turns : List Turn} {o : ObjectId} {ids : List Nat}

/-- An operation whose result is replaced fails where it fails. -/
theorem Act.error_of_map {α β : Type} {f : α → β} {act : Act γ α} {w w' : World γ} {fault : Fault}
    (h : (f <$> act) w = (.error fault, w')) : act w = (.error fault, w') := by
  rw [Subscription.map_eq] at h
  cases hact : act w with
  | mk r u =>
    rw [hact] at h
    obtain ⟨hr, rfl⟩ := Prod.mk.inj h
    cases r with
    | error => rw [Except.error.inj hr]
    | ok => cases hr

/-! ## Holding and giving up -/

/-- To hold other things leaves the tables as they are. -/
theorem Entry.in_holds (m : Model) (holds : List Hold) (e : Entry) :
    e.In { m with holds } ↔ e.In m :=
  in_of_binding? (fun _ => rfl) e

/-- To give up several things leaves the tables as they are. -/
theorem Entry.in_releaseAll (m : Model) (hs : List Hold) (e : Entry) :
    e.In (m.releaseAll hs) ↔ e.In m := by
  induction hs generalizing m with
  | nil => rfl
  | cons h hs ih => exact (ih (m.release h)).trans (in_holds m (m.holds.erase h) e)

/-- What is rolled back stays so while the tables are the same. -/
theorem RolledBack.of_same (h : RolledBack m₀ turns m) (hsame : ∀ e : Entry, e.In m' ↔ e.In m) :
    RolledBack m₀ turns m' where
  installed e he := h.installed e ((hsame e).1 he)
  released e he := (h.released e he).imp_left (hsame e).2

/-- A subscription to several names that fails changes nothing in the account. -/
theorem Underway.refused {names : List ScopedName} {handler : ScopedName → Handler} {fault : Fault}
    (h : Underway m₀ turns o ids m)
    (hfields : Model.bindFields o names handler m = (.error fault, m')) :
    Underway m₀ turns o ids m' := by
  have hu := Model.upholds_bindFields h.bound names handler
  rw [hfields] at hu
  exact h.of_same hu (Model.in_bindFields_of_error h.tidy.numbered hfields)

/-! ## One member after the other -/

/-- Whether the turns that were written down and the registrations with the given numbers account
for the tables. -/
def World.Accounts (m₀ : Model) (o : ObjectId) (ids : List Nat) (u : World (γ × List Turn)) :
    Prop :=
  Underway m₀ u.client.2 o ids u.model

/-- Whether an attempt to bind a formula came out with a number that accounts for the tables
together with others, or with an error if these do so alone. -/
def Formulated (m₀ : Model) (o : ObjectId) (ids : List Nat) :
    Except Fault BoundFormula × World (γ × List Turn) → Prop
  | (.ok bound, u) => u.Accounts m₀ o (ids ++ bound.id.toList)
  | (.error _, u) => u.Accounts m₀ o ids

/-- Whether an attempt to bind a row to an object came out with a row that accounts for the tables,
or else rolled back if the object stayed alive. -/
def Concluded (m₀ : Model) (o : ObjectId) : Except Fault BoundRow × World (γ × List Turn) → Prop
  | (.ok row, u) => row.scope = o ∧ u.Accounts m₀ o row.ids
  | (.error _, u) =>
    (∀ t ∈ u.client.2, t.after.isAlive o = true) → RolledBack m₀ u.client.2 u.model

/-- To give up several things changes nothing in how an attempt came out. -/
theorem Concluded.releaseAll {r : Except Fault BoundRow × World (γ × List Turn)}
    (h : Concluded m₀ o r) (hs : List Hold) :
    Concluded m₀ o (r.1, r.2.mapModel (·.releaseAll hs)) := by
  obtain ⟨res, u⟩ := r
  have hsame := Entry.in_releaseAll u.model hs
  cases res with
  | ok row => exact ⟨h.1, h.2.of_same (u.model.upholds_releaseAll hs) hsame⟩
  | error fault => exact fun halive => (h halive).of_same hsame

section Listening

variable {listen : Listener γ} (hlisten : ∀ n (u : World γ), u.model.Upholds (listen n u).model)
  {u : World (γ × List Turn)}

namespace World.Accounts

/-- To hold several things changes nothing in the account. -/
theorem holdAll (h : u.Accounts m₀ o ids) (hs : List Hold) :
    (u.mapModel (·.holdAll hs)).Accounts m₀ o ids :=
  Underway.of_same h (u.model.upholds_holds _) (Entry.in_holds u.model _)

include hlisten

/-- A turn of the client is part of the account. -/
theorem told (h : u.Accounts m₀ o ids) (n : Notice) : (listen.traced n u).Accounts m₀ o ids :=
  Underway.turn h (hlisten n ⟨u.model, u.client.1⟩)

/-- A turn of the client, while several things are held, is part of the account. -/
theorem holding (h : u.Accounts m₀ o ids) (hs : List Hold) (n : Notice) :
    (u.holding hs (listen.traced n)).Accounts m₀ o ids :=
  Underway.of_same ((h.holdAll hs).told hlisten n) (Model.upholds_releaseAll _ hs)
    (Entry.in_releaseAll _ hs)

/-- Binding a formula accounts for what it subscribes to, which is nothing if it fails. -/
theorem formulates (h : u.Accounts m₀ o ids) {r : Except Fault BoundFormula × World (γ × List Turn)}
    (hr : Scope.Formulates listen.traced o u r) : Formulated m₀ o ids r := by
  cases hr with
  | unvalued => exact h
  | unresolved hfields => exact Underway.refused h hfields
  | @bound _ _ id m _ hs n hfields =>
    have hextended : World.Accounts m₀ o (ids ++ id.toList) { u with model := m } :=
      Underway.extend h hfields
    exact hextended.holding hlisten hs n

end World.Accounts

namespace BoundRow

include hlisten

/-- A row that is given up after a failure was told is rolled back. -/
theorem rolledBack_drop {row : BoundRow} (h : u.Accounts m₀ row.scope row.ids) (n : Notice)
    (halive : ∀ t ∈ (listen.traced n u).client.2, t.after.isAlive row.scope = true) :
    RolledBack m₀ (listen.traced n u).client.2 (row.drop (listen.traced n u).model) := by
  have htold := h.told hlisten n
  -- The object is alive after the turn in which the failure was told, which was the last.
  have hlast := halive _ (List.mem_append_right _ (List.mem_singleton_self _))
  exact (Underway.undo htold hlast).of_same (Entry.in_releaseAll _ row.holds)

/-- Binding the members of a row one after the other comes out with a row that accounts for the
tables, or rolled back. -/
theorem bindMembers_concludes {k : CallbackId} {this : Value} (members : List (String × Json))
    {row : BoundRow} (h : u.Accounts m₀ row.scope row.ids) :
    Concluded m₀ row.scope (bindMembers listen.traced k this members row u) := by
  induction members generalizing row u with
  | nil => exact ⟨rfl, h⟩
  | cons member members ih =>
    obtain ⟨name, member⟩ := member
    rw [bindMembers_cons]
    cases source? member with
    | none => exact ih h
    | some src =>
      have hbound := h.formulates hlisten
        (Scope.formulates_bindTemplate listen.traced row.scope u src this ⟨k, some name⟩)
      dsimp only
      cases hres : Scope.bindTemplate listen.traced row.scope src this ⟨k, some name⟩ u with
      | mk r u' =>
        rw [hres] at hbound
        cases r with
        | error fault => exact rolledBack_drop hlisten hbound _
        | ok bound =>
          have hextended : World.Accounts m₀ (row.extend name bound).scope
              (row.extend name bound).ids (u'.mapModel (·.holdAll bound.value.holds)) :=
            hbound.holdAll bound.value.holds
          exact ih hextended

/-- Binding a row to an object with a binding comes out with a row that accounts for the tables, or
rolled back. -/
theorem bind_concludes (ht : u.model.Tidy) (hb : u.model.isBound o = true)
    (hturns : u.client.2 = []) (json : Json) (k : CallbackId) :
    Concluded u.model o (bind listen.traced o json k u) := by
  have hstart : u.Accounts u.model o [] := by
    unfold World.Accounts
    rw [hturns]
    exact .start ht hb
  cases json with
  | object members =>
    rw [bind_eq]
    -- The tables are the same after an object was made of the row's data.
    have hmade : World.Accounts u.model o []
        { u with model := (u.model.ofJson (.object members)).2 } :=
      Underway.of_same hstart (u.model.upholds_ofJson (.object members))
        (Entry.in_of_binding? fun p => Model.ofJson_within
          (I := fun m m' => m'.binding? p = m.binding? p) ⟨fun _ => rfl, fun h h' => h'.trans h⟩
          (fun m s => Model.binding?_add m s p) _ _)
    let empty : BoundRow := ⟨o, [], Dict.empty⟩
    exact (bindMembers_concludes hlisten members
      (show World.Accounts u.model empty.scope empty.ids _ from hmade.holdAll _)).releaseAll _
  | null | bool | integer | float | text | array => exact fun _ => Underway.rolledBack hstart

end BoundRow

end Listening

/-! ## Every attempt -/

namespace Attempt

/-- An attempt that fails is rolled back, if its listener upholds what is recorded and the object
stays alive. -/
theorem rolledBack {listen : Listener γ}
    (hlisten : ∀ n (u : World γ), u.model.Upholds (listen n u).model) {k : CallbackId}
    (a : Attempt) {u u' : World (γ × List Turn)} {fault : Fault} (ht : u.model.Tidy)
    (hb : u.model.isBound o = true) (hturns : u.client.2 = [])
    (h : a.run listen.traced o k u = (.error fault, u'))
    (halive : ∀ t ∈ u'.client.2, t.after.isAlive o = true) :
    RolledBack u.model u'.client.2 u'.model := by
  have hstart : u.Accounts u.model o [] := by
    unfold World.Accounts
    rw [hturns]
    exact .start ht hb
  -- Expressions and templates come out as formulas do.
  have hformula {r : Except Fault BoundFormula × World (γ × List Turn)}
      (hr : Scope.Formulates listen.traced o u r) (hfault : r = (.error fault, u')) :
      RolledBack u.model u'.client.2 u'.model := by
    have hbound := hstart.formulates hlisten hr
    rw [hfault] at hbound
    exact Underway.rolledBack hbound
  cases a with
  | fields names =>
    have hact := Act.error_of_map h
    have hfields : Model.bindFields o names _ u.model = (.error fault, u'.model) :=
      Prod.ext (congrArg (·.1) hact) (congrArg (·.2.model) hact)
    have hclient : u.client.2 = u'.client.2 := congrArg (·.2.client.2) hact
    rw [← hclient]
    exact (Underway.refused hstart hfields).rolledBack
  | expr src this =>
    exact hformula (Scope.formulates_bindExpr _ o u src this _) (Act.error_of_map h)
  | template src this =>
    exact hformula (Scope.formulates_bindTemplate _ o u src this _) (Act.error_of_map h)
  | row json =>
    have hrow := BoundRow.bind_concludes hlisten ht hb hturns json k
    rw [Act.error_of_map h] at hrow
    exact hrow halive

/-- In every run, an attempt to bind that fails leaves nothing behind, at whatever object and member
it fails, and takes nothing away, apart from what the client does when it is called. The object is
alive in all turns of the client, since whoever binds to it holds it until the attempt is over. -/
theorem rolledBack_of_error {w w' : World History} {listen : Listener History} {k : CallbackId}
    {a : Attempt} {fault : Fault} (moves : Moves Demand ⟨{}, []⟩ w)
    (hb : w.model.isBound o = true)
    (hlisten : ∀ n u, Moves Demand (u.record (.told n)) (listen n u))
    (h : a.run listen o k w = (.error fault, w'))
    (halive : ∀ t ∈ a.turns listen o k w, t.after.isAlive o = true) :
    RolledBack w.model (a.turns listen o k w) w'.model := by
  have hupholds (n : Notice) (u : World History) : u.model.Upholds (listen n u).model :=
    (hlisten n u).upholds
  -- The same attempt, with its turns written down.
  let traced := a.run listen.traced o k { model := w.model, client := (w.client, []) }
  have hsame : (Except.error fault, w') = (traced.1, traced.2.mapClient Prod.fst) :=
    h.symm.trans (run_traced listen o k a { model := w.model, client := (w.client, []) })
  obtain ⟨hfault, hw'⟩ := Prod.mk.inj hsame
  have hrolled := rolledBack hupholds a (tidy_of_moves moves) hb rfl
    (Prod.ext hfault.symm rfl : traced = (.error fault, traced.2)) halive
  rw [hw']
  exact hrolled

end Attempt

/-- A house with a lamp that is on, and a room in it. -/
def house : World History :=
  { model :=
      let m := (Model.add {} (.map (Dict.ofList [("lamp", .bool true)]))).2
      let m := ((m.add (.map .empty)).2.ensureBinding 0).ensureBinding 1
      ((Model.setParent 1 (some 0) m).2).holdAll [.object 0, .object 1]
    client := [] }

/-- The house can be built. -/
theorem moves_house : Moves Demand ⟨{}, []⟩ house := by
  have hnoting (n : Notice) (u : World History) :
      Moves Demand (u.record (.told n)) (noting n u) := .done _
  have hlamp (q : ObjectId) (hq : .object q ∈ [Value.bool true]) : q < 0 :=
    nomatch List.mem_singleton.1 hq
  exact .next hnoting (.add (s := .map (Dict.ofList [("lamp", .bool true)])) hlamp) <|
    .next hnoting (.add (s := .map .empty) nofun) <|
    .next hnoting (.proxy (o := 0)) <| .next hnoting (.proxy (o := 1)) <|
    .next hnoting (.setParent (o := 1) fun p (hp : some 0 = some p) => by
      obtain rfl := Option.some.inj hp
      decide) <|
    .next hnoting (@Demand.hold noting _ [.object 0, .object 1]) <| .done _

/-- An attempt to bind a row to the room whose first member reads the lamp, and whose second one
cannot be read. -/
def Attempt.halfway : Attempt :=
  .row (.object [("a", .text "$$lamp"), ("b", .text "\x7b\x7b ( \x7d\x7d")])

/-- The attempt fails. The first member is connected to the house when the client is told of it and
when it is warned of the second one, and not any more after that. -/
theorem Attempt.rolledBack_of_error_halfway :
    (halfway.run noting 1 0 house).1.isOk = false ∧
      (halfway.turns noting 1 0 house).map (fun t => (t.before.connectionsOf 0).length) = [1, 1] ∧
      (halfway.run noting 1 0 house).2.model.connectionsOf 0 = [] ∧
      RolledBack house.model (halfway.turns noting 1 0 house)
        (halfway.run noting 1 0 house).2.model := by
  have hok : (halfway.run noting 1 0 house).1.isOk = false := by decide +kernel
  refine ⟨hok, by decide +kernel, by decide +kernel, ?_⟩
  cases hres : halfway.run noting 1 0 house with
  | mk r w =>
    rw [hres] at hok
    cases r with
    | ok => cases hok
    | error fault =>
      exact rolledBack_of_error moves_house (by decide) (fun _ _ => .done _) hres
        (by decide +kernel)

end LiveScope
