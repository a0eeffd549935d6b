/-!
# Outcomes of operations that can fail
-/

namespace LiveScope

/-- A sequence of two operations succeeds if the first does and the second does with its result. -/
theorem bind_eq_ok_iff {ε α β : Type} {x : Except ε α} {f : α → Except ε β} {b : β} :
    x >>= f = .ok b ↔ ∃ a, x = .ok a ∧ f a = .ok b := by
  cases x with
  | ok a =>
    constructor
    · intro h
      exact ⟨a, rfl, h⟩
    · rintro ⟨_, h, hf⟩
      cases h
      exact hf
  | error _ =>
    constructor
    · intro h
      cases h
    · rintro ⟨_, h, _⟩
      cases h

/-- A sequence of two operations of which only the first can fail succeeds if the first does. -/
theorem bind_pure_eq_ok_iff {ε α β : Type} {x : Except ε α} {f : α → β} {b : β} :
    (x >>= fun a => pure (f a)) = .ok b ↔ ∃ a, x = .ok a ∧ b = f a := by
  refine bind_eq_ok_iff.trans (exists_congr fun a => and_congr_right fun _ => ?_)
  exact ⟨fun h => (Except.ok.inj h).symm, fun h => congrArg Except.ok h.symm⟩

/-- Whether an operation gives something good or fails with a fault that is allowed. -/
def Ends {ε α : Type} (allowed : ε → Prop) (good : α → Prop) : Except ε α → Prop
  | .ok a => good a
  | .error e => allowed e

namespace Ends

variable {ε α β : Type} {allowed allowed' : ε → Prop} {good good' : α → Prop} {x : Except ε α}

/-- A sequence of two operations ends well if the first does and the second does after it. -/
theorem bind {after : β → Prop} {f : α → Except ε β} (hx : Ends allowed good x)
    (hf : ∀ a, good a → Ends allowed after (f a)) : Ends allowed after (x >>= f) := by
  cases x with
  | ok a => exact hf a hx
  | error e => exact hx

/-- What ends well does so by any weaker standard. -/
theorem mono (h : Ends allowed good x) (hfault : ∀ e, allowed e → allowed' e)
    (hgood : ∀ a, good a → good' a) : Ends allowed' good' x := by
  cases x with
  | ok a => exact hgood a h
  | error e => exact hfault e h

/-- A result of what ends well is good. -/
theorem of_ok {a : α} (h : Ends allowed good x) (hx : x = .ok a) : good a := by
  rw [hx] at h
  exact h

/-- A fault of what ends well is allowed. -/
theorem of_error {e : ε} (h : Ends allowed good x) (hx : x = .error e) : allowed e := by
  rw [hx] at h
  exact h

end Ends

end LiveScope
