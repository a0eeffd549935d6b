import LiveScope.Proofs.Formula.Fields
import LiveScope.Proofs.Formula.Scope
import LiveScope.Proofs.Model.Climbing

/-!
# An expression depends on its fields

What an expression reads besides the spec row are the values of its fields, and of these, where one
is a list, the text. `Expr.SameFields` says that two models agree on this, and
`Expr.eval_eq_of_fields` that they then give a parsed expression the same outcome, whatever else
they differ in: other members, other objects, other subscriptions, and other scopes on the way to
the same values.
-/

namespace LiveScope

namespace Model

variable {m m' : Model} {o : ObjectId}

/-- What is no object has the same text everywhere. -/
theorem text_of_plain {v : Value} (h : v.object? = none) : m'.text v = m.text v := by
  cases v with
  | null | bool | number | text | function => rfl
  | object => cases h

/-- A variable with a name is looked up with the same outcome where its field has the same value. -/
theorem lookup_congr (h : m.Linked) (h' : m'.Linked) {n : ScopedName} (hname : n.name ≠ "")
    (hvalue : ∀ v, (getValue o ⟨n.sigils - 1, n.name⟩ m').1 = .ok v ↔
      (getValue o ⟨n.sigils - 1, n.name⟩ m).1 = .ok v) :
    m'.lookup (.object o) n = m.lookup (.object o) n := by
  by_cases hdeep : maxDepth < n.sigils
  · rw [lookup_eq m o hname, lookup_eq m' o hname, if_pos hdeep, if_pos hdeep]
  · have hfield : n.sigils - 1 ≤ maxDepth := by omega
    have hfound (v : Value) : (∃ p, m'.above (n.sigils - 1) o = some p ∧ m'.get p n.name = v) ↔
        ∃ p, m.above (n.sigils - 1) o = some p ∧ m.get p n.name = v := by
      have := hvalue v
      rwa [getValue_eq_ok_iff h, getValue_eq_ok_iff h', and_iff_right hfield,
        and_iff_right hfield] at this
    rw [lookup_eq m o hname, lookup_eq m' o hname, if_neg hdeep, if_neg hdeep]
    cases hp : m.above (n.sigils - 1) o with
    | some p =>
      obtain ⟨p', hp', hget⟩ := (hfound _).2 ⟨p, hp, rfl⟩
      rw [hp']
      exact congrArg Except.ok hget
    | none =>
      cases hp' : m'.above (n.sigils - 1) o with
      | none => rfl
      | some p' =>
        obtain ⟨p, hsome, _⟩ := (hfound _).1 ⟨p', hp', rfl⟩
        rw [hp] at hsome
        cases hsome

end Model

namespace Expr

variable {m m' : Model} {o : ObjectId}

/-- Whether the fields of an expression, read by name from an object, are the same in two models:
they have the same values, or none in either, and those that are lists have the same texts. -/
structure SameFields (e : Expr) (o : ObjectId) (m m' : Model) : Prop where
  /-- The fields have the same values. -/
  values : ∀ n ∈ e.fields, ∀ v,
    (Model.getValue o n m').1 = .ok v ↔ (Model.getValue o n m).1 = .ok v
  /-- Those that are lists have the same texts. -/
  texts : ∀ n ∈ e.fields, ∀ q, (Model.getValue o n m).1 = .ok (.object q) →
    (m.store q).isList = true ∨ (m'.store q).isList = true →
      m'.text (.object q) = m.text (.object q)

/-- The value of a field has the same text. -/
theorem SameFields.text {e : Expr} (h : e.SameFields o m m') {n : ScopedName} (hn : n ∈ e.fields)
    {v : Value} (hv : (Model.getValue o n m).1 = .ok v) : m'.text v = m.text v := by
  cases hq : v.object? with
  | none => exact Model.text_of_plain hq
  | some q =>
    obtain rfl := Value.object?_eq_some_iff.1 hq
    by_cases hlist : (m.store q).isList = true ∨ (m'.store q).isList = true
    · exact h.texts n hn q hv hlist
    · rw [not_or, Bool.not_eq_true, Bool.not_eq_true] at hlist
      rw [Model.text_of_map hlist.1, Model.text_of_map hlist.2]

/-- A parsed expression whose variables all have names has the same outcome in two models in which
its fields are the same, and the spec row with everything inside it. -/
theorem eval_eq_of_fields {ts : List Token} {e : Expr} (hparse : parse ts = .ok e)
    (hnamed : ∀ n ∈ e.names, n.name ≠ "") (h : m.Linked) (h' : m'.Linked)
    (hfields : e.SameFields o m m') {row : Value} {inside : ObjectId → Prop}
    (hrow : ∀ q, row.object? = some q → inside q) (hclosed : m.Closed inside)
    (hstore : ∀ q, inside q → m'.store q = m.store q) :
    e.eval m' (.object o) row = e.eval m (.object o) row := by
  have hstripped := Parser.stripped_of_run hparse
  rw [eval_eq_evalBy, eval_eq_evalBy]
  refine (evalBy_congr (fun v => m'.text v = m.text v) (fun _ => Model.text_of_plain)
    (fun _ => id) (fun name => ?_) e fun n hn => ?_).1
  · -- A member of the row is the same and as a whole inside the row.
    unfold Model.memberOf
    cases hq : row.object? with
    | none => exact ⟨rfl, rfl⟩
    | some q =>
      have hin := hrow q hq
      have hsame : (m'.store q).get name = (m.store q).get name := by rw [hstore q hin]
      refine ⟨hsame, Model.text_congr hclosed hstore fun p hp => ?_⟩
      exact hclosed q hin p (Store.get_mem_values (Value.object?_eq_some_iff.1 hp))
  · have hfield := mem_fields hstripped hn (hnamed n hn)
    refine ⟨Model.lookup_congr h h' (hnamed n hn) (hfields.values _ hfield), fun v hv => ?_⟩
    -- What a variable comes to is the value of its field.
    refine hfields.text hfield ((Model.getValue_eq_ok_iff h o _ v).2 ?_)
    obtain ⟨hle, hfound⟩ := (Model.lookup_eq_ok_iff m o (hnamed n hn) v).1 hv
    exact ⟨Nat.le_trans (Nat.sub_le _ _) hle, hfound⟩

/-- A room that is linked to its house, which has a list; the last object is a spec row. -/
def room : Model :=
  { objects := #[⟨.map (Dict.ofList [("mark", .text "!")]), some { parent := some 1 }⟩,
      ⟨.map (Dict.ofList [("items", .object 2)]), some {}⟩,
      ⟨.list [.bool true, .null], none⟩,
      ⟨.map (Dict.ofList [("tail", .text "?")]), none⟩],
    holds := [.object 0, .object 1] }

/-- The same room with its house as a member, where other members and the items have changed. -/
def movedRoom : Model :=
  { objects := #[⟨.map (Dict.ofList [("mark", .text "!"), (parentKey, .object 1)]), some {}⟩,
      ⟨.map (Dict.ofList [("items", .object 2), ("size", .number 2)]), none⟩,
      ⟨.list [.text "true", .text ""], none⟩,
      ⟨.map (Dict.ofList [("tail", .text "?")]), none⟩] }

/-- The items of the house, the mark of the room and the tail of the row. -/
def roomTokens : List Token :=
  [⟨.reference, "$$items", 0⟩, ⟨.concat, "..", 8⟩, ⟨.reference, "mark", 11⟩, ⟨.concat, "..", 16⟩,
    ⟨.property, "@tail", 19⟩]

/-- The tree of these tokens. -/
def roomText : Expr :=
  .binary .concat (.binary .concat (.reference ⟨2, "items"⟩) (.reference ⟨0, "mark"⟩))
    (.property "tail")

/-- Its fields are the same in both rooms. -/
theorem sameFields_room : roomText.SameFields 0 room movedRoom := by
  have hfields : roomText.fields = [⟨1, "items"⟩, ⟨0, "mark"⟩] := by rfl
  have hitems : (Model.getValue 0 ⟨1, "items"⟩ room).1 = .ok (.object 2) ∧
      (Model.getValue 0 ⟨1, "items"⟩ movedRoom).1 = .ok (.object 2) := ⟨by rfl, by rfl⟩
  have hmark : (Model.getValue 0 ⟨0, "mark"⟩ room).1 = .ok (.text "!") ∧
      (Model.getValue 0 ⟨0, "mark"⟩ movedRoom).1 = .ok (.text "!") := ⟨by rfl, by rfl⟩
  refine ⟨fun n hn v => ?_, fun n hn q hq _ => ?_⟩
  · rw [hfields] at hn
    rcases List.mem_pair.1 hn with rfl | rfl
    · rw [hitems.1, hitems.2]
    · rw [hmark.1, hmark.2]
  · rw [hfields] at hn
    rcases List.mem_pair.1 hn with rfl | rfl
    · rw [hitems.1] at hq
      cases hq
      rfl
    · rw [hmark.1] at hq
      cases hq

/-- The text is the same in both rooms. -/
theorem eval_eq_of_fields_room : parse roomTokens = .ok roomText ∧
    roomText.eval room (.object 0) (.object 3) = .ok (.text "true,!?") ∧
    roomText.eval movedRoom (.object 0) (.object 3) =
      roomText.eval room (.object 0) (.object 3) := by
  have hparse : parse roomTokens = .ok roomText := by with_unfolding_all rfl
  have hlinked : room.Linked := by
    intro o p hop
    match o with
    | 0 =>
      obtain rfl := Option.some.inj hop
      rfl
    | 1 | 2 | 3 | _ + 4 => cases hop
  have hlinked' : movedRoom.Linked := by
    intro o p hop
    match o with
    | 0 | 1 | 2 | 3 | _ + 4 => cases hop
  have hrow : ∀ q, (Value.object 3).object? = some q → q = 3 :=
    fun q hq => (Option.some.inj hq).symm
  have hclosed : room.Closed (· = 3) := by
    rintro _ rfl q hq
    cases List.mem_singleton.1 hq
  have hstore : ∀ q, q = 3 → movedRoom.store q = room.store q := by
    rintro _ rfl
    rfl
  exact ⟨hparse, by rfl, eval_eq_of_fields hparse (by decide) hlinked hlinked' sameFields_room
    hrow hclosed hstore⟩

end Expr

end LiveScope
