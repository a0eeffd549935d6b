import LiveScope.Decimal.Reader
import Mathlib.Data.List.Basic
import Mathlib.Data.List.Induction

/-!
# Digits

The number that a run of digits denotes is the one that the standard library reads from it
(`natural_eq`), so the digits of a natural denote that natural (`natural_toDigits`). The other way
round, digits are those of the natural they denote unless they have a superfluous zero in front
(`toDigits_ofDigitChars`, `toDigits_of_head?`).
-/

namespace LiveScope.Decimal

/-- A digit has a value. -/
theorem digit?_of_isDigit {c : Char} (h : c.isDigit = true) :
    digit? c = some (c.toNat - '0'.toNat) :=
  if_pos (by simpa [Char.isDigit, Char.le_def] using h)

/-- Digits that follow others. -/
theorem natural_append (acc : Nat) (ds es : List Char) :
    natural acc (ds ++ es) = natural (natural acc ds) es :=
  List.foldl_append

/-- Digits are read as in the standard library. -/
theorem natural_eq {ds : List Char} (h : ∀ c ∈ ds, c.isDigit = true) (acc : Nat) :
    natural acc ds = Nat.ofDigitChars 10 ds acc := by
  induction ds generalizing acc with
  | nil => rfl
  | cons d ds ih =>
    rw [Nat.ofDigitChars_cons, ← ih fun c hc => h c (List.mem_cons_of_mem d hc)]
    show natural (10 * acc + (digit? d).getD 0) ds = _
    rw [digit?_of_isDigit (h d List.mem_cons_self)]
    rfl

/-- The digits of a natural denote it. -/
theorem natural_toDigits (n : Nat) : natural 0 (Nat.toDigits 10 n) = n := by
  rw [natural_eq fun c hc => Nat.isDigit_of_mem_toDigits (by decide) (by decide) hc,
    Nat.ofDigitChars_ten_toDigits]

/-- Digits without a superfluous zero are those of the natural that they denote. -/
theorem toDigits_ofDigitChars {ds : List Char} (hne : ds ≠ [])
    (hdigits : ∀ c ∈ ds, c.isDigit = true) (hzero : ds.head? = some '0' → ds = ['0']) :
    Nat.toDigits 10 (Nat.ofDigitChars 10 ds 0) = ds := by
  -- From the first digit to the last, since a natural gets one more digit at its end.
  induction ds using List.reverseRecOn with
  | nil => exact absurd rfl hne
  | append_singleton ds d ih =>
    have hd : 48 ≤ d.toNat ∧ d.toNat ≤ 57 := by
      simpa [Char.isDigit, UInt32.le_iff_toNat_le] using hdigits d (by simp)
    have hvalue : d.toNat - '0'.toNat < 10 := by
      show d.toNat - 48 < 10
      omega
    have hchar : Nat.digitChar (d.toNat - '0'.toNat) = d := by
      apply Char.toNat_inj.1
      rw [Nat.toNat_digitChar_of_lt_ten hvalue]
      show 48 + (d.toNat - 48) = d.toNat
      omega
    rw [Nat.ofDigitChars_append, Nat.ofDigitChars_cons, Nat.ofDigitChars_nil]
    by_cases hds : ds = []
    · subst hds
      rw [Nat.ofDigitChars_nil, Nat.mul_zero, Nat.zero_add, Nat.toDigits_of_lt_base hvalue, hchar]
      rfl
    · have hhead : ds.head? ≠ some '0' := by
        intro h
        have hone := congrArg List.length (hzero (by rw [List.head?_append, h]; rfl))
        exact hds (by simpa using hone)
      have hrest := ih hds (fun c hc => hdigits c (by simp [hc])) fun h => absurd h hhead
      have hpos : 0 < Nat.ofDigitChars 10 ds 0 := by
        refine Nat.pos_of_ne_zero fun h => hhead ?_
        rw [← hrest, h]
        rfl
      rw [← Nat.toDigits_append_toDigits (by decide) hpos hvalue, hrest,
        Nat.toDigits_of_lt_base hvalue, hchar]

/-- The digits of a natural start with a zero only if it is zero. -/
theorem toDigits_of_head? {n : Nat} (h : (Nat.toDigits 10 n).head? = some '0') :
    Nat.toDigits 10 n = ['0'] := by
  induction n using Nat.strongRecOn with
  | ind n ih =>
    rw [Nat.toDigits_eq_if (by decide)] at h ⊢
    split at h
    · rename_i hn
      rw [if_pos hn]
      exact congrArg (· :: []) (Option.some.inj h)
    · rename_i hn
      rw [List.head?_append_of_ne_nil _ Nat.toDigits_ne_nil] at h
      have hzero : n / 10 = 0 := by
        rw [← Nat.ofDigitChars_ten_toDigits (n := n / 10), ih (n / 10) (by omega) h]
        rfl
      omega

end LiveScope.Decimal
