import LiveScope.Proofs.Row.Leaving
import LiveScope.Proofs.Template.Constants

/-!
# The members of a row

Binding a row passes over the members that have no marks of anything live. `BoundRow.Course` is
what binding comes to when no member fails: one after the other is passed over or bound. Since texts
without marks are constants, no member is missed whose value could change: each is among the values,
with what it was worth when its turn came, and the registrations are those of the members that have
fields (`BoundRow.shows_live`).
-/

namespace LiveScope

variable {γ : Type}

/-- The formula that a member is, if it is a text that is read as a template. -/
def BoundRow.template? (member : Json) : Option Expr :=
  member.text?.bind fun src => (Expr.ofTemplate src).toOption

/-- Whether a member is a template that has fields. -/
def BoundRow.hasFields (member : Json) : Bool :=
  (template? member).any fun e => !e.fields.isEmpty

/-- A subscription to several names has a number if there are names at all. -/
theorem Model.length_bindFields {o : ObjectId} {names : List ScopedName}
    {handler : ScopedName → Handler} {m m' : Model} {id : Option Nat}
    (h : bindFields o names handler m = (.ok id, m')) :
    id.toList.length = if names.isEmpty then 0 else 1 := by
  rw [bindFields_eq] at h
  split at h
  · rename_i hempty
    obtain rfl := Except.ok.inj (Prod.mk.inj h).1
    rw [if_pos hempty]
    rfl
  · rename_i hempty
    rw [if_neg hempty]
    split at h
    · cases h
    · obtain rfl := Except.ok.inj (Prod.mk.inj h).1
      rfl

/-- A template that is bound was read and evaluated, and is registered if it has fields. -/
theorem Scope.of_bindTemplate {listen : Listener γ} {o : ObjectId} {src : String} {this : Value}
    {sink : Sink} {w u : World γ} {bound : BoundFormula}
    (h : bindTemplate listen o src this sink w = (.ok bound, u)) :
    ∃ e, Expr.ofTemplate src = .ok e ∧ e.eval w.model (.object o) this = .ok bound.value ∧
      bound.id.toList.length = if e.fields.isEmpty then 0 else 1 := by
  cases hsrc : Expr.ofTemplate src with
  | error fault =>
    unfold bindTemplate at h
    rw [hsrc] at h
    cases h
  | ok e =>
    rw [bindTemplate_eq _ _ _ hsrc] at h
    obtain ⟨heval, m, hfields, -⟩ := bindFormula_of_ok h
    exact ⟨e, rfl, heval, Model.length_bindFields hfields⟩

namespace BoundRow

variable {listen : Listener γ} {k : CallbackId} {this : Value} {o : ObjectId}
  {members before after : List (String × Json)} {row row' : BoundRow} {w w' : World γ}

/-- What binding members comes to if none fails: from a row and a world to those afterwards. -/
inductive Course (listen : Listener γ) (k : CallbackId) (this : Value) :
    List (String × Json) → BoundRow → World γ → BoundRow → World γ → Prop
  /-- All members have had their turns. -/
  | done (row : BoundRow) (w : World γ) : Course listen k this [] row w row w
  /-- A member without marks is passed over. -/
  | pass {name : String} {member : Json} {members : List (String × Json)} {row row' : BoundRow}
      {w w' : World γ} (plain : source? member = none)
      (rest : Course listen k this members row w row' w') :
      Course listen k this ((name, member) :: members) row w row' w'
  /-- A member with marks is bound, and its value is held. -/
  | bind {name : String} {member : Json} {members : List (String × Json)} {row row' : BoundRow}
      {w u w' : World γ} {src : String} {bound : BoundFormula} (marked : source? member = some src)
      (binds : Scope.bindTemplate listen row.scope src this ⟨k, some name⟩ w = (.ok bound, u))
      (rest : Course listen k this members (row.extend name bound)
        (u.mapModel (·.holdAll bound.value.holds)) row' w') :
      Course listen k this ((name, member) :: members) row w row' w'

/-- Binding succeeds by such a course. -/
theorem course_iff : Course listen k this members row w row' w' ↔
    bindMembers listen k this members row w = (.ok row', w') := by
  constructor
  · intro h
    induction h with
    | done => rfl
    | pass plain _ ih =>
      rw [bindMembers_cons, plain]
      exact ih
    | bind marked binds _ ih =>
      rw [bindMembers_cons, marked]
      dsimp only
      rw [binds]
      exact ih
  · intro h
    induction members generalizing row w with
    | nil =>
      obtain ⟨hrow, rfl⟩ := Prod.mk.inj h
      obtain rfl := Except.ok.inj hrow
      exact .done row w
    | cons x members ih =>
      obtain ⟨name, member⟩ := x
      rw [bindMembers_cons] at h
      cases hsource : source? member with
      | none =>
        rw [hsource] at h
        exact .pass hsource (ih h)
      | some src =>
        rw [hsource] at h
        dsimp only at h
        cases hbinds : Scope.bindTemplate listen row.scope src this ⟨k, some name⟩ w with
        | mk r u =>
          rw [hbinds] at h
          cases r with
          | error => cases h
          | ok bound => exact .bind hsource hbinds (ih h)

namespace Course

/-- Members that follow others are bound after these. -/
theorem split (h : Course listen k this (before ++ after) row w row' w') :
    ∃ earlier u, Course listen k this before row w earlier u ∧
      Course listen k this after earlier u row' w' := by
  induction before generalizing row w with
  | nil => exact ⟨row, w, .done row w, h⟩
  | cons x before ih =>
    cases h with
    | pass plain rest =>
      obtain ⟨earlier, u, hbefore, hafter⟩ := ih rest
      exact ⟨earlier, u, .pass plain hbefore, hafter⟩
    | bind marked binds rest =>
      obtain ⟨earlier, u, hbefore, hafter⟩ := ih rest
      exact ⟨earlier, u, .bind marked binds hbefore, hafter⟩

/-- The row stays with its object. -/
theorem scope_eq (h : Course listen k this members row w row' w') : row'.scope = row.scope := by
  induction h with
  | done => rfl
  | pass _ _ ih => exact ih
  | bind _ _ _ ih => exact ih

/-- The values of other members stay. -/
theorem find?_values (h : Course listen k this members row w row' w') {name : String}
    (hname : name ∉ members.map (·.1)) : row'.values.find? name = row.values.find? name := by
  induction h with
  | done => rfl
  | pass _ _ ih => exact ih fun hmem => hname (List.mem_cons_of_mem _ hmem)
  | @bind first _ _ row _ _ _ _ _ bound _ _ _ ih =>
    rw [ih fun hmem => hname (List.mem_cons_of_mem _ hmem)]
    have hne : name ≠ first := by
      rintro rfl
      exact hname List.mem_cons_self
    show (row.values.insert first bound.value).find? name = _
    rw [Dict.find?_insert, if_neg hne]

end Course

/-- A member without marks is no text, no template, or a constant. -/
theorem inert_of_source? {member : Json} (h : source? member = none) {e : Expr}
    (he : template? member = some e) : e.Inert := by
  unfold template? at he
  obtain ⟨src, hsrc, he⟩ := Option.bind_eq_some_iff.1 he
  have hlive : Template.isLive src.toList = false := by
    unfold source? at h
    rw [hsrc] at h
    simpa using h
  rcases Template.constant_of_not_live hlive with ⟨_, _, _, hfails⟩ | ⟨_, hreads⟩
  · rw [hfails] at he
    cases he
  · rw [hreads] at he
    obtain rfl := Option.some.inj he
    exact Expr.inert_literal _

/-- A member with marks is read as its source. -/
theorem template?_of_source? {member : Json} {src : String} (h : source? member = some src) :
    template? member = (Expr.ofTemplate src).toOption := by
  unfold template?
  rw [(Option.filter_eq_some_iff.1 h).1]
  rfl

/-- The members with fields are registered, each under a number. -/
theorem Course.length_ids (h : Course listen k this members row w row' w') :
    row'.ids.length = row.ids.length +
      members.countP fun x => hasFields x.2 := by
  induction h with
  | done => rfl
  | @pass name member _ _ _ _ _ plain _ ih =>
    -- Without marks there is nothing to register for, so what is passed over does not count.
    have hnone : hasFields member = false := by
      refine (Option.any_eq_false ..).2 fun e he => ?_
      rw [(inert_of_source? plain he).fields]
      rfl
    rw [ih, List.countP_cons, if_neg (Bool.eq_false_iff.1 hnone), Nat.add_zero]
  | @bind name member _ row _ _ _ _ src bound marked binds _ ih =>
    obtain ⟨e, hsrc, _, hid⟩ := Scope.of_bindTemplate binds
    have hmember : template? member = some e := by
      rw [template?_of_source? marked, hsrc]
      rfl
    have hone : bound.id.toList.length = if hasFields member = true then 1 else 0 := by
      unfold hasFields
      rw [hid, hmember, Option.any_some]
      cases e.fields.isEmpty <;> rfl
    have hids : (row.extend name bound).ids.length = row.ids.length + bound.id.toList.length :=
      List.length_append
    rw [ih, hids, hone, List.countP_cons, Nat.add_assoc, Nat.add_comm (ite _ _ _)]

/-- The world in which binding the members of a row begins: the row is an object, and it and the
scope are held. -/
def opening (o : ObjectId) (json : Json) (w : World γ) : World γ :=
  { w with model :=
      (w.model.ofJson json).2.holdAll (.object o :: (w.model.ofJson json).1.holds) }

/-- A row that is bound is an object whose members were bound, from the first to the last. -/
theorem course_of_bind {json : Json} (h : bind listen o json k w = (.ok row, w')) :
    ∃ members u, json = .object members ∧
      Course listen k (w.model.ofJson json).1 members ⟨o, [], Dict.empty⟩ (opening o json w)
        row u := by
  cases json with
  | object members =>
    rw [bind_eq] at h
    exact ⟨members, _, rfl, course_iff.2 (Prod.ext (Prod.mk.inj h).1 rfl)⟩
  | null | bool | integer | float | text | array => cases h

/-- The value of a member that could change is that of its formula when its turn came. -/
theorem Course.find?_of_not_inert {name : String} {member : Json} {e : Expr}
    (h : Course listen k this (before ++ (name, member) :: after) ⟨o, [], Dict.empty⟩ w row w')
    (hafter : name ∉ after.map (·.1)) (he : template? member = some e) (hlive : ¬ e.Inert) :
    ∃ earlier u v, bindMembers listen k this before ⟨o, [], Dict.empty⟩ w = (.ok earlier, u) ∧
      e.eval u.model (.object o) this = .ok v ∧ row.values.find? name = some v := by
  obtain ⟨earlier, u, hbefore, hlater⟩ := h.split
  cases hlater with
  | pass plain => exact absurd (inert_of_source? plain he) hlive
  -- Its value is inserted at its turn, and no member after it has its name.
  | @bind _ _ _ _ _ _ _ _ src bound marked binds rest =>
    obtain ⟨e', hsrc, heval, _⟩ := Scope.of_bindTemplate binds
    obtain rfl : e' = e := by
      rw [template?_of_source? marked, hsrc] at he
      exact Option.some.inj he
    rw [hbefore.scope_eq] at heval
    refine ⟨earlier, u, bound.value, course_iff.1 hbefore, heval, ?_⟩
    rw [rest.find?_values hafter]
    show (earlier.values.insert name bound.value).find? name = _
    rw [Dict.find?_insert, if_pos rfl]

/-- A text without marks is malformed, by a backslash at its end, or one constant, so that nothing
could change its value. When a row has been bound, each of its members that is a template and whose
value could change is among its values, with the value that its formula had when all members before
it had been bound; and the registrations are as many as the members that have fields. -/
theorem shows_live :
    (∀ src : String, Template.isLive src.toList = false →
      (∃ before, src.toList = before ++ ['\\'] ∧ ∀ offset, Template.tokens offset src.toList =
        .error (.malformed (offset + Lexeme.bytes before) .malformedEscape)) ∨
      (∀ offset, ∃ t, Template.tokens offset src.toList = .ok [t] ∧ t.kind = .literal) ∧
        ∃ s, Expr.ofTemplate src = .ok (.literal (.text s)) ∧ (Expr.literal (.text s)).Inert) ∧
    ∀ (γ : Type) (listen : Listener γ) o json k (w w' : World γ) row,
      (∀ members, json = .object members → Ascending members) →
      bind listen o json k w = (.ok row, w') →
      ∃ members, json = .object members ∧
        (∀ before name member after e, members = before ++ (name, member) :: after →
          template? member = some e → ¬ e.Inert →
          ∃ earlier u v, bindMembers listen k (w.model.ofJson json).1 before
              ⟨o, [], Dict.empty⟩ (opening o json w) = (.ok earlier, u) ∧
            e.eval u.model (.object o) (w.model.ofJson json).1 = .ok v ∧
            row.values.find? name = some v) ∧
        row.ids.length = members.countP fun x => hasFields x.2 := by
  refine ⟨fun src hlive => ?_, fun γ listen o json k w w' row hascending hbind => ?_⟩
  · rcases Template.constant_of_not_live hlive with ⟨before, hsrc, hfails, _⟩ | ⟨htokens, hreads⟩
    · exact .inl ⟨before, hsrc, hfails⟩
    · refine .inr ⟨fun offset => ?_, _, hreads, Expr.inert_literal _⟩
      obtain ⟨place, htoken⟩ := htokens offset
      exact ⟨_, htoken, rfl⟩
  · obtain ⟨members, u, rfl, hcourse⟩ := course_of_bind hbind
    refine ⟨members, rfl, fun before name member after e hmembers he hlive => ?_, ?_⟩
    · subst hmembers
      refine hcourse.find?_of_not_inert (fun hmem => ?_) he hlive
      -- The members of an object are sorted by name, so that this one has its name alone.
      have hnodup := (hascending _ rfl).nodup_keys
      rw [List.map_append, List.map_cons] at hnodup
      exact (List.nodup_cons.1 (List.nodup_append.1 hnodup).2.1).1 hmem
    · rw [hcourse.length_ids]
      exact Nat.zero_add _

/-- A row whose first member shows a lamp, whose second one has a lone brace in it, and whose third
one shows the second. -/
def lampLabels : Json :=
  .object [("a", .text "$$lamp"), ("b", .text "\x7b on or off"),
    ("c", .text "\x7b\x7b @b \x7d\x7d")]

/-- The first member changes with the lamp, the third one has the text of the second as its value,
and the second one is passed over. -/
theorem shows_live_labels : ∃ row w', bind noting 1 lampLabels 0 house = (.ok row, w') ∧
    row.ids.length = 1 ∧ row.values.find? "b" = none ∧
    ∃ v, row.values.find? "c" = some v ∧ house.model.text v = "\x7b on or off" := by
  have hok : (bind noting 1 lampLabels 0 house).1.isOk = true := by decide +kernel
  obtain ⟨row, hrow⟩ := Act.ok_of_isOk hok
  have hascending : ∀ members, lampLabels = .object members → Ascending members := by
    rintro _ ⟨⟩
    unfold Ascending
    decide
  obtain ⟨_, ⟨⟩, hshown, hids⟩ := shows_live.2 _ noting 1 lampLabels 0 house _ row hascending hrow
  -- The third member is a template, and it reads a member of the row.
  have hreads : (template? (.text "\x7b\x7b @b \x7d\x7d")).any (fun e => !e.properties.isEmpty) =
      true := by
    decide +kernel
  obtain ⟨e, he, hproperties⟩ := (Option.any_eq_true ..).1 hreads
  have hlive : ¬ e.Inert := fun h => by
    rw [h.properties] at hproperties
    cases hproperties
  obtain ⟨_, _, v, _, _, hv⟩ := hshown
    [("a", .text "$$lamp"), ("b", .text "\x7b on or off")] "c" _ [] e rfl he hlive
  have hvalues : (bind noting 1 lampLabels 0 house).1.toOption.map (fun row =>
      ((row.values.find? "b").isNone, (row.values.find? "c").map house.model.text)) =
      some (true, some "\x7b on or off") := by
    decide +kernel
  rw [hrow] at hvalues
  obtain ⟨hnone, htext⟩ := Prod.mk.inj (Option.some.inj hvalues)
  rw [hv] at htext
  exact ⟨row, _, hrow, hids.trans (by decide +kernel), Option.isNone_iff_eq_none.1 hnone, v, hv,
    Option.some.inj htext⟩

end BoundRow

end LiveScope
