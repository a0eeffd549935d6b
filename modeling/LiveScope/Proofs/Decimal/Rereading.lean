import LiveScope.Proofs.Decimal.Bits
import LiveScope.Proofs.Decimal.Digits
import LiveScope.Proofs.Decimal.Shortest
import LiveScope.Proofs.Expr.Numerals

/-!
# A shown number is read back

`Number.text` writes a number without an exponent: digits, and a fraction if it has one
(`Decimal.Writes`). What is written is a decimal that the number covers, be it the shortest one
(`Scientific.writes_positional`) or the number itself in all its digits. So reading it, which rounds
the decimal to the nearest number, gives the number again (`Number.read?_text`).
-/

namespace LiveScope

open Lexeme

namespace Decimal

/-- Whether a text is a decimal without a sign and an exponent: digits, a fraction if there is one,
and what they stand for. -/
def Writes (cs : List Char) (coefficient : ℕ) (exponent : ℤ) : Prop :=
  ∃ whole fraction, cs = whole ++ fraction ∧ whole ≠ [] ∧ Digits whole ∧ Fractional fraction ∧
    coefficient = natural (natural 0 whole) (fraction.drop 1) ∧
    exponent = -((fraction.drop 1).length : ℤ)

/-- What is written is read as the nearest float. -/
theorem Writes.read? {cs : List Char} {c : ℕ} {e : ℤ} (h : Writes cs c e) :
    Decimal.read? (String.ofList cs) = some (toFloat false c e) := by
  obtain ⟨whole, fraction, rfl, hne, hwhole, hfraction, rfl, rfl⟩ := h
  have hread := @read?_append whole fraction [] hne hwhole hfraction (by simp)
  rw [List.append_nil] at hread
  rw [hread]
  show some (toFloat false _ (0 - _)) = _
  rw [zero_sub]

/-- The digits of a natural are digits. -/
theorem digits_toDigits (n : ℕ) : Digits (Nat.toDigits 10 n) := by
  intro c hc
  have hdigit := Nat.isDigit_of_mem_toDigits (by norm_num) (by norm_num) hc
  unfold Char.isDigit at hdigit
  unfold isDigit
  simpa [Char.le_def, and_comm] using hdigit

/-- Zeros are digits. -/
theorem digits_zeros (k : ℕ) : Digits (List.replicate k '0') := by
  intro c hc
  rw [List.eq_of_mem_replicate hc]
  rfl

/-- Zeros multiply what comes before them by powers of ten. -/
theorem natural_zeros (acc k : ℕ) : natural acc (List.replicate k '0') = 10 ^ k * acc := by
  rw [natural_eq fun c hc => List.eq_of_mem_replicate hc ▸ rfl, Nat.ofDigitChars_replicate_zero]

/-- The digits of a natural write it. -/
theorem writes_toDigits (n : ℕ) : Writes (Nat.toDigits 10 n) n 0 :=
  ⟨_, [], (List.append_nil _).symm, Nat.toDigits_ne_nil, digits_toDigits n, .inl rfl,
    (natural_toDigits n).symm, rfl⟩

end Decimal

open Decimal

/-- A decimal that is written without an exponent is written as it is. -/
theorem Scientific.writes_positional (s : Scientific) :
    ∃ c e, Writes (s.positional false) c e ∧ (c : ℚ) * 10 ^ e = s.value := by
  have hne : s.digits ≠ [] := Nat.toDigits_ne_nil
  have hdigits : Digits s.digits := digits_toDigits s.coefficient
  have hread : natural 0 s.digits = s.coefficient := natural_toDigits s.coefficient
  unfold positional value
  dsimp only
  by_cases hle : 0 ≤ s.exponent
  · -- Zeros are appended.
    rw [if_pos hle]
    refine ⟨s.coefficient * 10 ^ s.exponent.natAbs, 0, ?_, ?_⟩
    · refine ⟨s.digits ++ List.replicate s.exponent.natAbs '0', [], rfl, ?_, ?_, .inl rfl, ?_, rfl⟩
      · exact List.append_ne_nil_of_left_ne_nil hne _
      · exact fun c hc => (List.mem_append.1 hc).elim (hdigits c) (digits_zeros _ c)
      · show _ = natural 0 _
        rw [natural_append, hread, natural_zeros, Nat.mul_comm]
    · rw [Binary.ten_pow_natAbs s.exponent, if_pos hle, zpow_zero, mul_one]
      push_cast
      rfl
  · rw [if_neg hle]
    refine ⟨s.coefficient, s.exponent, ?_, rfl⟩
    by_cases hinside : s.exponent.natAbs < s.digits.length
    · -- The point falls between two digits.
      rw [if_pos hinside]
      refine ⟨s.digits.take (s.digits.length - s.exponent.natAbs),
        '.' :: s.digits.drop (s.digits.length - s.exponent.natAbs), rfl, ?_, ?_,
        .inr ⟨_, rfl, ?_, ?_⟩, ?_, ?_⟩
      · rw [ne_eq, List.take_eq_nil_iff]
        exact not_or.2 ⟨by omega, hne⟩
      · exact fun c hc => hdigits c (List.mem_of_mem_take hc)
      · rw [ne_eq, List.drop_eq_nil_iff]
        omega
      · exact fun c hc => hdigits c (List.mem_of_mem_drop hc)
      · show _ = natural _ (s.digits.drop _)
        rw [← natural_append, List.take_append_drop, hread]
      · show _ = -((s.digits.drop _).length : ℤ)
        rw [List.length_drop]
        omega
    · -- Zeros stand after the point.
      rw [if_neg hinside]
      refine ⟨['0'], '.' :: (List.replicate (s.exponent.natAbs - s.digits.length) '0' ++ s.digits),
        rfl, List.cons_ne_nil _ _, digits_zeros 1, .inr ⟨_, rfl, ?_, ?_⟩, ?_, ?_⟩
      · exact List.append_ne_nil_of_right_ne_nil _ hne
      · exact fun c hc => (List.mem_append.1 hc).elim (digits_zeros _ c) (hdigits c)
      · show _ = natural 0 (List.replicate _ '0' ++ s.digits)
        rw [natural_append, natural_zeros, Nat.mul_zero, hread]
      · show _ = -((List.replicate _ '0' ++ s.digits).length : ℤ)
        rw [List.length_append, List.length_replicate]
        omega

/-- What a number covers is neither too small nor too large to be computed with. -/
theorem Binary.Covers.range {b : Binary} (hb : b.Canonical) (hne : b.significand ≠ 0) {v : ℚ}
    (h : b.Covers v) : (10 : ℚ) ^ (-400 : ℤ) < v ∧ v < 10 ^ (400 : ℤ) := by
  obtain ⟨hlow, hhigh⟩ := h.bounds
  have hbelow := b.halfBelow_bounds.2
  have hone : (1 : ℚ) ≤ b.significand := by exact_mod_cast Nat.one_le_iff_ne_zero.2 hne
  have hsignificand : (b.significand : ℚ) + 1 ≤ 2 ^ 53 := by exact_mod_cast hb.significand_lt
  have hten : (2 : ℚ) ^ (1200 : ℤ) < 10 ^ (400 : ℤ) := by
    have hcube : (2 : ℚ) ^ (1200 : ℤ) = (2 ^ (3 : ℤ)) ^ (400 : ℤ) := by rw [← zpow_mul]; rfl
    rw [hcube]
    exact zpow_lt_zpow_left₀ (by norm_num) (by norm_num) (by norm_num)
  constructor
  · -- The least number is `2 ^ minExponent`, and what it covers is at least half of it.
    calc (10 : ℚ) ^ (-400 : ℤ) < 2 ^ (-1200 : ℤ) := by
          rw [zpow_neg, zpow_neg]
          exact inv_strictAnti₀ (by positivity) hten
      _ ≤ 2 ^ (-1 + minExponent) := zpow_le_zpow_right₀ (by norm_num) (by decide)
      _ = 1 / 2 * 2 ^ minExponent := by
        rw [zpow_add₀ (by norm_num)]
        norm_num
      _ ≤ (b.significand - b.halfBelow) * 2 ^ b.exponent := by
        refine mul_le_mul (by linarith) ?_ (by positivity) (by linarith)
        exact zpow_le_zpow_right₀ (by norm_num) hb.le_exponent
      _ ≤ v := hlow
  · calc v ≤ (b.significand + 1 / 2) * 2 ^ b.exponent := hhigh
      _ ≤ 2 ^ (53 : ℤ) * 2 ^ (971 : ℤ) := by
        refine mul_le_mul ?_ ?_ (by positivity) (by positivity)
        · norm_num
          linarith
        · exact zpow_le_zpow_right₀ (by norm_num) hb.exponent_le
      _ ≤ 2 ^ (1200 : ℤ) := by
        rw [← zpow_add₀ (by norm_num)]
        exact zpow_le_zpow_right₀ (by norm_num) (by norm_num)
      _ < 10 ^ (400 : ℤ) := hten

namespace Decimal

/-- A decimal that a number covers is read as the number. -/
theorem toFloat_of_covers {b : Binary} (hb : b.Canonical) (hnegative : b.negative = false)
    (hne : b.significand ≠ 0) {c : ℕ} {e : ℤ} (h : b.Covers (c * 10 ^ e)) :
    toFloat false c e = b.toFloat := by
  obtain ⟨hsmall, hlarge⟩ := h.range hb hne
  have hc : c ≠ 0 := by
    rintro rfl
    have : (0 : ℚ) < 10 ^ (-400 : ℤ) := by positivity
    rw [Nat.cast_zero, zero_mul] at hsmall
    exact absurd hsmall (not_lt.2 this.le)
  -- The digits tell which power of ten the decimal is next to.
  obtain ⟨hfirst, hlast⟩ := Binary.pow_length_toDigits hc
  have hlength : 0 < (Nat.toDigits 10 c).length := Nat.length_toDigits_pos
  rw [Nat.sub_add_cancel hlength] at hlast
  have hpow : (0 : ℚ) < 10 ^ e := by positivity
  have hnotsmall : ¬ e + ((Nat.toDigits 10 c).length : ℤ) < -400 := by
    have hlt : (10 : ℚ) ^ (-400 : ℤ) < 10 ^ (e + ((Nat.toDigits 10 c).length : ℤ)) := by
      rw [zpow_add₀ (by norm_num), zpow_natCast, mul_comm]
      exact hsmall.trans (by gcongr)
    have := (zpow_lt_zpow_iff_right₀ (by norm_num)).1 hlt
    omega
  have hnotlarge : ¬ 400 < e + ((Nat.toDigits 10 c).length : ℤ) := by
    have hlt : (10 : ℚ) ^ (e + ((Nat.toDigits 10 c).length - 1 : ℕ)) < 10 ^ (400 : ℤ) := by
      rw [zpow_add₀ (by norm_num), zpow_natCast, mul_comm]
      exact lt_of_le_of_lt (by gcongr) hlarge
    have := (zpow_lt_zpow_iff_right₀ (by norm_num)).1 hlt
    omega
  have hsame : (⟨false, b.significand, b.exponent⟩ : Binary) = b := by rw [← hnegative]
  unfold toFloat
  dsimp only
  rw [if_neg (not_or.2 ⟨hc, hnotsmall⟩), if_neg hnotlarge]
  unfold Binary.ofRatio
  rw [Binary.ten_pow_natAbs e] at h
  simp only [Nat.pow_eq]
  split
  · rename_i hle
    rw [if_pos hle] at h
    rw [Binary.nearest_of_covers hb (Nat.mul_ne_zero hc (by positivity)) one_ne_zero, hsame]
    rw [Nat.cast_one, div_one]
    exact_mod_cast h
  · rename_i hlt
    rw [if_neg hlt, ← div_eq_mul_inv] at h
    rw [Binary.nearest_of_covers hb hc (by positivity), hsame]
    exact_mod_cast h

end Decimal

namespace Number

/-- A number with an integral value is that value. -/
theorem magnitude_of_natural? {b : Binary} {n : ℕ} (h : b.natural? = some n) :
    (n : ℚ) = b.magnitude := by
  unfold Binary.natural? Binary.ratio at h
  unfold Binary.magnitude
  simp only [Nat.pow_eq] at h
  by_cases hle : 0 ≤ b.exponent
  · rw [if_pos hle] at h
    dsimp only at h
    rw [if_pos (Nat.mod_one _), Nat.div_one] at h
    obtain rfl := Option.some.inj h
    push_cast
    rw [← zpow_natCast, Int.natCast_natAbs, abs_of_nonneg hle]
  · rw [if_neg hle] at h
    dsimp only at h
    split at h
    · rename_i hmod
      obtain rfl := Option.some.inj h
      rw [Nat.cast_div (Nat.dvd_of_mod_eq_zero hmod) (by positivity)]
      push_cast
      rw [← zpow_natCast, Int.natCast_natAbs, abs_of_neg (not_le.1 hle), zpow_neg, div_inv_eq_mul]
    · cases h

/-- What is shown of a finite number without a sign writes a decimal that is read as the number. -/
theorem writes_text {x : Float} {b : Binary} (hx : Binary.ofFloat? x = some b)
    (hnegative : b.negative = false) :
    ∃ c e, Writes (text x).toList c e ∧ toFloat false c e = x := by
  have hb := Binary.canonical_of_ofFloat? hx
  have hfloat := Binary.toFloat_of_ofFloat? hx
  have hplain (hne : b.significand ≠ 0) :
      ∃ c e, Writes (Layout.plain.write b).toList c e ∧ toFloat false c e = x := by
    obtain ⟨c, e, hwrites, hvalue⟩ := (b.shortest .up).writes_positional
    refine ⟨c, e, ?_, ?_⟩
    · unfold Layout.write
      rw [hnegative, String.toList_ofList]
      exact hwrites
    · rw [← hfloat]
      exact toFloat_of_covers hb hnegative hne (hvalue ▸ Binary.covers_shortest hb hne .up)
  unfold text
  rw [hx]
  dsimp only
  split
  · rename_i hzero
    refine ⟨0, 0, writes_toDigits 0, ?_⟩
    rw [← hfloat]
    unfold Binary.toFloat
    rw [hnegative, hzero]
    rfl
  · rename_i hne
    split
    · rename_i n hn
      split
      · -- A small integer is written without a point, as the number that it is.
        refine ⟨n, 0, ?_, ?_⟩
        · rw [hnegative, Nat.repr_eq_ofList_toDigits]
          simpa using writes_toDigits n
        · rw [← hfloat]
          refine toFloat_of_covers hb hnegative hne ?_
          rw [zpow_zero, mul_one, magnitude_of_natural? hn]
          exact Binary.covers_of_lt b.magnitude_bounds.1 b.magnitude_bounds.2
      · exact hplain hne
    · exact hplain hne

/-- What is read from a decimal without a sign has none. -/
theorem negative_of_toFloat {c : ℕ} {e : ℤ} {b : Binary}
    (h : Binary.ofFloat? (toFloat false c e) = some b) : b.negative = false := by
  have hpow (k : ℕ) : Nat.pow 10 k ≠ 0 := by
    rw [Nat.pow_eq]
    positivity
  have hratio {num den : ℕ} (hden : den ≠ 0)
      (h : Binary.ofFloat? (Binary.ofRatio false num den) = some b) : b.negative = false := by
    obtain ⟨hsign, hfits⟩ := Binary.nearest_fits false num hden
    exact Binary.negative_of_toFloat hsign hfits h
  unfold toFloat at h
  dsimp only at h
  split at h
  · exact hratio one_ne_zero h
  · split at h
    · exact Binary.negative_of_toFloat rfl (by norm_num [Binary.normal]) h
    · split at h
      · exact hratio one_ne_zero h
      · exact hratio (hpow _) h

/-- What is shown of a finite number that is read from a decimal without a sign writes a decimal
that is read as the number. -/
theorem exists_writes {x : Float} {c : ℕ} {e : ℤ} (h : x.isFinite = true)
    (hx : x = toFloat false c e) : ∃ c e, Writes (text x).toList c e ∧ toFloat false c e = x := by
  rw [← Binary.isSome_ofFloat?] at h
  obtain ⟨b, hb⟩ := Option.isSome_iff_exists.1 h
  exact writes_text hb (negative_of_toFloat (hx ▸ hb))

/-- A number that is read from a decimal without a sign is read back from what is shown of it. -/
theorem read?_text {x : Float} {c : ℕ} {e : ℤ} (h : x.isFinite = true)
    (hx : x = toFloat false c e) : Decimal.read? (text x) = some x := by
  obtain ⟨c', e', hwrites, hsame⟩ := exists_writes h hx
  have hread := hwrites.read?
  rwa [String.ofList_toList, hsame] at hread

end Number

end LiveScope
