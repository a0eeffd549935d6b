import LiveScope.Proofs.Model.Tables

/-!
# Changes of a model that can fail

What an `Edit` gives on a model, one construct at a time, and what a relation between models needs
so that every `Edit` made of such constructs stays within it (`Edit.Keeps`).
-/

namespace LiveScope

/-- A relation that holds over any number of changes if it holds over each. -/
structure Steady {α : Type} (I : α → α → Prop) : Prop where
  /-- It holds if nothing changes. -/
  refl : ∀ a, I a a
  /-- It holds over one change after another. -/
  trans : ∀ {a b c}, I a b → I b c → I a c

/-- A sequence of changes stays within a relation if each of them does. -/
theorem Steady.foldl {α β : Type} {I : α → α → Prop} (hI : Steady I) {f : α → β → α}
    (xs : List β) (h : ∀ x ∈ xs, ∀ a, I a (f a x)) (a : α) : I a (xs.foldl f a) := by
  induction xs generalizing a with
  | nil => exact hI.refl a
  | cons x xs ih =>
    exact hI.trans (h x List.mem_cons_self a) (ih (fun y hy => h y (List.mem_cons_of_mem _ hy)) _)

namespace Edit

variable {α β : Type} {m m' : Model} {e : Edit α} {f : α → Edit β}

/-- After a change that succeeds the next one goes on with its result. -/
theorem bind_of_ok {a : α} (h : e m = (.ok a, m')) : (e >>= f) m = f a m' := by
  show ExceptT.bindCont f (e m).1 (e m).2 = _
  rw [h]
  rfl

/-- After a change that fails nothing more is done. -/
theorem bind_of_error {fault : Fault} (h : e m = (.error fault, m')) :
    (e >>= f) m = (.error fault, m') := by
  show ExceptT.bindCont f (e m).1 (e m).2 = _
  rw [h]
  rfl

/-- Two changes succeed if the first does and the second does with its result. -/
theorem ok_of_bind {b : β} (h : (e >>= f) m = (.ok b, m')) :
    ∃ a m₁, e m = (.ok a, m₁) ∧ f a m₁ = (.ok b, m') := by
  cases he : e m with
  | mk r m₁ =>
    cases r with
    | ok a =>
      rw [bind_of_ok he] at h
      exact ⟨a, m₁, rfl, h⟩
    | error fault =>
      rw [bind_of_error he] at h
      cases h

/-- Two changes fail if the first does, or the second with its result. -/
theorem error_of_bind {fault : Fault} (h : (e >>= f) m = (.error fault, m')) :
    e m = (.error fault, m') ∨ ∃ a m₁, e m = (.ok a, m₁) ∧ f a m₁ = (.error fault, m') := by
  cases he : e m with
  | mk r m₁ =>
    cases r with
    | ok a =>
      rw [bind_of_ok he] at h
      exact .inr ⟨a, m₁, rfl, h⟩
    | error fault' =>
      rw [bind_of_error he] at h
      obtain ⟨hfault, rfl⟩ := Prod.mk.inj h
      rw [Except.error.inj hfault]
      exact .inl rfl

/-- Nothing is recovered from if nothing fails. -/
theorem tryCatch_of_ok {a : α} {handle : Fault → Edit α} (h : e m = (.ok a, m')) :
    (tryCatch e handle : Edit α) m = (.ok a, m') := by
  show ExceptT.tryCatch e handle m = _
  unfold ExceptT.tryCatch
  simp only [ExceptT.mk, bind, StateT.bind, h]
  rfl

/-- A failure is handled in the model that it left. -/
theorem tryCatch_of_error {fault : Fault} {handle : Fault → Edit α}
    (h : e m = (.error fault, m')) : (tryCatch e handle : Edit α) m = handle fault m' := by
  show ExceptT.tryCatch e handle m = _
  unfold ExceptT.tryCatch
  simp only [ExceptT.mk, bind, StateT.bind, h]

/-- Whether a change stays within a relation, also where it fails. -/
def Keeps (I : Model → Model → Prop) (e : Edit α) : Prop := ∀ m, I m (e m).2

namespace Keeps

variable {I : Model → Model → Prop}

/-- What a change came to. -/
theorem of_run {r : Except Fault α} (h : Keeps I e) (hrun : e m = (r, m')) : I m m' := by
  have hkept := h m
  rwa [hrun] at hkept

/-- A result alone changes nothing. -/
theorem pure (hI : Steady I) (a : α) : Keeps I (pure a : Edit α) := hI.refl

/-- A failure alone changes nothing. -/
theorem throw (hI : Steady I) (fault : Fault) : Keeps I (throw fault : Edit α) := hI.refl

/-- Reading the model changes nothing. -/
theorem get (hI : Steady I) : Keeps I (get : Edit Model) := hI.refl

/-- A change that cannot fail. -/
theorem modify {f : Model → Model} (h : ∀ m, I m (f m)) : Keeps I (modify f : Edit Unit) := h

/-- A change with a result that cannot fail. -/
theorem modifyGet {f : Model → α × Model} (h : ∀ m, I m (f m).2) :
    Keeps I (modifyGet f : Edit α) := h

/-- Two changes, one after the other. -/
theorem bind (hI : Steady I) (he : Keeps I e) (hf : ∀ a, Keeps I (f a)) : Keeps I (e >>= f) := by
  intro m
  cases h : e m with
  | mk r m' =>
    have hfirst : I m m' := by
      have := he m
      rwa [h] at this
    cases r with
    | ok a =>
      rw [bind_of_ok h]
      exact hI.trans hfirst (hf a m')
    | error fault =>
      rw [bind_of_error h]
      exact hfirst

/-- A change and the handling of its failure. -/
theorem tryCatch (hI : Steady I) {handle : Fault → Edit α} (he : Keeps I e)
    (hh : ∀ fault, Keeps I (handle fault)) : Keeps I (tryCatch e handle : Edit α) := by
  intro m
  cases h : e m with
  | mk r m' =>
    have hfirst : I m m' := by
      have := he m
      rwa [h] at this
    cases r with
    | ok a =>
      rw [tryCatch_of_ok h]
      exact hfirst
    | error fault =>
      rw [tryCatch_of_error h]
      exact hI.trans hfirst (hh fault m')

/-- The same for every member of a list. -/
theorem mapM (hI : Steady I) {f : α → Edit β} (hf : ∀ a, Keeps I (f a)) (xs : List α) :
    Keeps I (xs.mapM f) := by
  induction xs with
  | nil => exact hI.refl
  | cons x xs ih =>
    rw [List.mapM_cons]
    exact bind hI (hf x) fun _ => bind hI ih fun _ => pure hI _

end Keeps

end Edit

end LiveScope
