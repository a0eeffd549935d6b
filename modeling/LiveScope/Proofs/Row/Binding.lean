import LiveScope.Proofs.World.Requests
import LiveScope.World.Row

/-!
# What binding a row does

Binding a spec row binds one live member after the other. `BoundRow.bindMembers_cons` is the
equation for the first of several members: either it is bound and the others follow, or its failure
is told and all that was bound of the row is given up. A relation that holds over each of these
holds over binding a row (`BoundRow.bind_within`).
-/

namespace LiveScope

variable {γ : Type}

namespace Act

variable {α : Type} {act : Act γ α} {w w' : World γ}

/-- Nothing is recovered from if nothing fails. -/
theorem tryCatch_of_ok {a : α} {handle : Fault → Act γ α} (h : act w = (.ok a, w')) :
    (tryCatch act handle : Act γ α) w = (.ok a, w') := by
  show ExceptT.tryCatch act handle w = _
  unfold ExceptT.tryCatch
  simp only [ExceptT.mk, bind, StateT.bind, h]
  rfl

/-- A failure is handled in the world that it left. -/
theorem tryCatch_of_error {fault : Fault} {handle : Fault → Act γ α}
    (h : act w = (.error fault, w')) : (tryCatch act handle : Act γ α) w = handle fault w' := by
  show ExceptT.tryCatch act handle w = _
  unfold ExceptT.tryCatch
  simp only [ExceptT.mk, bind, StateT.bind, h]

end Act

namespace BoundRow

/-! ## One member after the other -/

/-- The source of a member that is live. -/
def source? (member : Json) : Option String := member.text?.filter fun s => Template.isLive s.toList

/-- A row with one more member. -/
def extend (row : BoundRow) (name : String) (bound : BoundFormula) : BoundRow :=
  { row with
    ids := row.ids ++ bound.id.toList
    values := row.values.insert name bound.value }

variable {listen : Listener γ} {k : CallbackId} {this : Value} {row : BoundRow} {w : World γ}

/-- The first of several members is passed over, or bound before the others, or fails. -/
theorem bindMembers_cons (name : String) (member : Json) (members : List (String × Json)) :
    bindMembers listen k this ((name, member) :: members) row w =
      match source? member with
      | none => bindMembers listen k this members row w
      | some src =>
        match Scope.bindTemplate listen row.scope src this ⟨k, some name⟩ w with
        | (.error fault, u) =>
          (.error fault, (listen (.warning (.member name fault)) u).mapModel row.drop)
        | (.ok bound, u) => bindMembers listen k this members (row.extend name bound)
          (u.mapModel (·.holdAll bound.value.holds)) := by
  rw [bindMembers]
  unfold source?
  cases member.text?.filter fun s => Template.isLive s.toList with
  | none => rfl
  | some src =>
    dsimp only
    cases hbound : Scope.bindTemplate listen row.scope src this ⟨k, some name⟩ w with
    | mk r u =>
      cases r with
      | error fault => exact Act.bind_of_error (Act.tryCatch_of_error hbound)
      | ok bound => exact Act.bind_of_ok (Act.tryCatch_of_ok hbound)

/-- Binding a row makes it an object, and binds its members while the row and its scope are
held. -/
theorem bind_eq (o : ObjectId) (members : List (String × Json)) :
    bind listen o (.object members) k w =
      let made := w.model.ofJson (.object members)
      let holds := .object o :: made.1.holds
      let r := bindMembers listen k made.1 members ⟨o, [], Dict.empty⟩
        { w with model := made.2.holdAll holds }
      (r.1, r.2.mapModel (·.releaseAll holds)) :=
  rfl

/-! ## Relations that rows stay within -/

variable {I : Model → Model → Prop} {J : World γ → World γ → Prop}

/-- Releasing the registrations of a row stays within a relation if releasing one does. -/
theorem undo_within (hI : Steady I) (hunbind : ∀ m id, I m (m.unbind row.scope id).2) (m : Model) :
    I m (row.undo m) := by
  unfold undo
  split
  · exact hI.foldl row.ids (fun id _ m => hunbind m id) m
  · exact hI.refl m

section Listening

variable (hJ : Steady J) (hloose : World.Loose J) (hlisten : ∀ n u, J u (listen n u))
  {o : ObjectId} (hbinds : ∀ m, Model.Binds I o m)
  (hmodel : ∀ (w : World γ) m, I w.model m → J w { w with model := m })
  (hrelease : ∀ (row : BoundRow) m, row.scope = o → I m (row.undo m))

include hJ hloose hlisten hbinds hmodel hrelease

/-- Binding the members of a row does no more than subscribe, release and tell. -/
theorem bindMembers_within (members : List (String × Json)) (hscope : row.scope = o)
    (w : World γ) : J w (bindMembers listen k this members row w).2 := by
  induction members generalizing row w with
  | nil => exact hJ.refl w
  | cons member members ih =>
    obtain ⟨name, member⟩ := member
    rw [bindMembers_cons]
    split
    · exact ih hscope w
    · rename_i src _
      have hbound : J w (Scope.bindTemplate listen row.scope src this ⟨k, some name⟩ w).2 :=
        Subscription.formulates_within hJ hloose hlisten (hscope ▸ hbinds w.model) (hmodel w)
          (Scope.formulates_bindTemplate listen row.scope w src this _)
      cases hres : Scope.bindTemplate listen row.scope src this ⟨k, some name⟩ w with
      | mk r u =>
        rw [hres] at hbound
        cases r with
        | error fault =>
          have hdropped (u : World γ) : J u (u.mapModel row.drop) :=
            hJ.trans (hmodel u _ (hrelease row u.model hscope)) (hloose.releaseAll hJ row.holds _)
          exact hJ.trans hbound (hJ.trans (hlisten _ u) (hdropped _))
        | ok bound =>
          have hheld : J u (u.mapModel (·.holdAll bound.value.holds)) := hloose u _
          have hextended : (row.extend name bound).scope = o := hscope
          exact hJ.trans hbound (hJ.trans hheld (ih hextended _))

/-- Binding a row makes objects and does no more beside than subscribe, release and tell. -/
theorem bind_within (hjson : ∀ m json, I m (m.ofJson json).2) (json : Json) (k : CallbackId)
    (w : World γ) : J w (bind listen o json k w).2 := by
  cases json with
  | object members =>
    rw [bind_eq]
    refine hJ.trans (hmodel w _ (hjson w.model (.object members))) (hJ.trans ?_
      (hJ.trans (bindMembers_within hJ hloose hlisten hbinds hmodel hrelease members rfl _)
        (hloose.releaseAll hJ _ _)))
    exact hloose { w with model := (w.model.ofJson (.object members)).2 } _
  | null | bool | integer | float | text | array => exact hJ.refl w

end Listening

end BoundRow

end LiveScope
