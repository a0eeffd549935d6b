import LiveScope.Decimal.Shortest
import LiveScope.Proofs.Decimal.Nearest

/-!
# The shortest decimal is rounded to the number

`Interval.holds` tests on naturals whether the number covers a decimal (`Binary.holds_iff`). The
search ends at a decimal that it covers, for on the last grid the number lies between two decimals
that are closer together than the ends of what it covers (`Binary.exists_onGrid?`): a decimal with
seventeen digits is more precise than a significand of fifty-three bits.
-/

namespace LiveScope

/-- The rational that a decimal stands for. -/
def Scientific.value (s : Scientific) : ℚ := s.coefficient * 10 ^ s.exponent

/-- Zeros at the end of the digits make no difference. -/
theorem Scientific.value_strip (fuel : ℕ) (s : Scientific) : (strip fuel s).value = s.value := by
  induction fuel generalizing s with
  | zero => rfl
  | succ fuel ih =>
    unfold strip
    split
    · rename_i hzero
      rw [ih]
      unfold value
      have hcoefficient : (s.coefficient : ℚ) = (s.coefficient / 10 : ℕ) * 10 := by
        exact_mod_cast (Nat.div_mul_cancel (Nat.dvd_of_mod_eq_zero hzero.1)).symm
      rw [hcoefficient, zpow_add_one₀ (by norm_num)]
      ring
    · rfl

namespace Binary

/-- A quarter unit of the last place is a ratio of naturals. -/
theorem quarter_eq (b : Binary) :
    0 < b.interval.den ∧ (b.interval.num : ℚ) = 2 ^ (b.exponent - 2) * b.interval.den := by
  unfold interval
  dsimp only
  simp only [Nat.pow_eq]
  split
  · rename_i hle
    refine ⟨Nat.one_pos, ?_⟩
    push_cast
    rw [← zpow_natCast, Int.natCast_natAbs, abs_of_nonneg hle, mul_one]
  · rename_i hlt
    refine ⟨by positivity, ?_⟩
    push_cast
    rw [← zpow_natCast, Int.natCast_natAbs, abs_of_neg (not_le.1 hlt), zpow_neg,
      mul_inv_cancel₀ (by positivity)]

/-- Four quarter units are a unit. -/
theorem two_pow_sub_two (q : ℤ) : (2 : ℚ) ^ (q - 2) = 2 ^ q / 4 := by
  rw [zpow_sub₀ (by norm_num)]
  norm_num

/-- A power of ten with the absolute value of its exponent. -/
theorem ten_pow_natAbs (e : ℤ) : (10 : ℚ) ^ e = if 0 ≤ e then 10 ^ e.natAbs
    else (10 ^ e.natAbs)⁻¹ := by
  rw [← zpow_natCast, Int.natCast_natAbs]
  split
  · rename_i hle
    rw [abs_of_nonneg hle]
  · rename_i hlt
    rw [abs_of_neg (not_le.1 hlt), zpow_neg, inv_inv]

/-- A decimal and a quarter unit of the last place over a common denominator. -/
theorem common_denominator (b : Binary) (c : ℕ) (e : ℤ) :
    ∃ s : ℚ, 0 < s ∧
      (((if 0 ≤ e then c * Nat.pow 10 e.natAbs * b.interval.den else c * b.interval.den : ℕ) : ℚ) =
        c * 10 ^ e * s) ∧
      (((if 0 ≤ e then b.interval.num else b.interval.num * Nat.pow 10 e.natAbs : ℕ) : ℚ) =
        2 ^ (b.exponent - 2) * s) := by
  obtain ⟨hpos, hquarter⟩ := b.quarter_eq
  have hpos' : (0 : ℚ) < b.interval.den := by exact_mod_cast hpos
  rw [ten_pow_natAbs e]
  simp only [Nat.pow_eq]
  split
  · refine ⟨b.interval.den, hpos', ?_, hquarter⟩
    push_cast
    rfl
  · refine ⟨b.interval.den * 10 ^ e.natAbs, by positivity, ?_, ?_⟩
    · push_cast
      field_simp
    · push_cast
      rw [hquarter]
      ring

/-- The ends of the interval are those of what the number covers. -/
theorem interval_ends {b : Binary} (hne : b.significand ≠ 0) :
    (b.interval.low : ℚ) = 4 * (b.significand - b.halfBelow) ∧
      (b.interval.high : ℚ) = 4 * (b.significand + 1 / 2) := by
  unfold interval halfBelow
  dsimp only
  constructor
  · split
    · rw [Nat.cast_sub (by omega)]
      push_cast
      ring
    · rw [Nat.cast_sub (by omega)]
      push_cast
      ring
  · push_cast
    ring

/-- The test is whether the number covers the decimal. -/
theorem holds_iff {b : Binary} (hne : b.significand ≠ 0) (c : ℕ) (e : ℤ) :
    b.interval.holds c e = true ↔ b.Covers (c * 10 ^ e) := by
  obtain ⟨s, hs, hdecimal, hunit⟩ := common_denominator b c e
  obtain ⟨hlow, hhigh⟩ := interval_ends hne
  have hquarter := two_pow_sub_two b.exponent
  have hclosed : b.interval.closed = decide (b.significand % 2 = 0) := rfl
  unfold Interval.holds
  dsimp only
  generalize (if 0 ≤ e then c * Nat.pow 10 e.natAbs * b.interval.den else c * b.interval.den) =
    decimal at *
  generalize (if 0 ≤ e then b.interval.num else b.interval.num * Nat.pow 10 e.natAbs) = unit at *
  -- Both comparisons are multiplied by the common denominator.
  have below : (b.interval.low : ℚ) * unit =
      (b.significand - b.halfBelow) * 2 ^ b.exponent * s := by
    rw [hlow, hunit, hquarter]
    ring
  have above : (b.interval.high : ℚ) * unit = (b.significand + 1 / 2) * 2 ^ b.exponent * s := by
    rw [hhigh, hunit, hquarter]
    ring
  unfold Covers
  rw [hclosed]
  simp only [decide_eq_true_eq]
  split
  · rw [Bool.and_eq_true, decide_eq_true_eq, decide_eq_true_eq, ← Nat.cast_le (α := ℚ),
      ← Nat.cast_le (α := ℚ), Nat.cast_mul, Nat.cast_mul, below, above, hdecimal,
      mul_le_mul_iff_left₀ hs, mul_le_mul_iff_left₀ hs]
  · rw [Bool.and_eq_true, decide_eq_true_eq, decide_eq_true_eq, ← Nat.cast_lt (α := ℚ),
      ← Nat.cast_lt (α := ℚ), Nat.cast_mul, Nat.cast_mul, below, above, hdecimal,
      mul_lt_mul_iff_left₀ hs, mul_lt_mul_iff_left₀ hs]

/-! ## The search -/

/-- The nearer of two neighbours is one of them. -/
theorem nearer_cases (i : Interval) (tie : Tie) (c : ℕ) (e : ℤ) :
    i.nearer tie c e = c ∨ i.nearer tie c e = c + 1 := by
  unfold Interval.nearer
  dsimp only
  generalize (2 * i.value * if 0 ≤ e then i.num else i.num * Nat.pow 10 e.natAbs) = middle
  generalize (if 0 ≤ e then (2 * c + 1) * Nat.pow 10 e.natAbs * i.den else (2 * c + 1) * i.den) =
    decimal
  split
  · exact .inl rfl
  · split
    · exact .inr rfl
    · cases tie with
      | up => exact .inr rfl
      | even => rcases Nat.mod_two_eq_zero_or_one c with h | h <;> simp [h]

/-- What is found on a grid is a decimal in the interval. -/
theorem holds_of_onGrid? {i : Interval} {tie : Tie} {e : ℤ} {c : ℕ}
    (h : i.onGrid? tie e = some c) : i.holds c e = true := by
  unfold Interval.onGrid? at h
  dsimp only at h
  split at h
  · rename_i hlow hhigh
    obtain rfl := Option.some.inj h
    rcases nearer_cases i tie _ e with hnear | hnear
    · rw [hnear]
      exact hlow
    · rw [hnear]
      exact hhigh
  · rename_i hlow _
    obtain rfl := Option.some.inj h
    exact hlow
  · rename_i hhigh
    obtain rfl := Option.some.inj h
    exact hhigh
  · cases h

/-- The search ends at a decimal in the interval if one of its grids has one. -/
theorem holds_search {i : Interval} {tie : Tie} {fuel k : ℕ} (hk : k < fuel) {e : ℤ}
    (h : (i.onGrid? tie (e - k)).isSome) :
    i.holds (i.search tie fuel e).coefficient (i.search tie fuel e).exponent = true := by
  induction fuel generalizing e k with
  | zero => omega
  | succ fuel ih =>
    unfold Interval.search
    split
    · rename_i c hc
      exact holds_of_onGrid? hc
    · rename_i hnone
      cases k with
      | zero =>
        rw [Nat.cast_zero, sub_zero, hnone] at h
        cases h
      | succ k =>
        refine ih (Nat.lt_of_succ_lt_succ hk) ?_
        convert h using 3
        push_cast
        ring

/-- The digits of a natural tell which powers of ten it lies between. -/
theorem pow_length_toDigits {n : ℕ} (hn : n ≠ 0) :
    (10 : ℚ) ^ ((Nat.toDigits 10 n).length - 1) ≤ n ∧
      (n : ℚ) < 10 ^ ((Nat.toDigits 10 n).length - 1 + 1) := by
  have hpos : 0 < (Nat.toDigits 10 n).length := Nat.length_toDigits_pos
  rw [Nat.sub_add_cancel hpos]
  constructor
  · rcases Nat.lt_or_ge 1 (Nat.toDigits 10 n).length with hlong | hshort
    · have hnot := mt (Nat.length_toDigits_le_iff (b := 10) (n := n) (by norm_num)
        (Nat.sub_pos_of_lt hlong)).2 (by omega)
      exact_mod_cast not_lt.1 hnot
    · rw [Nat.sub_eq_zero_of_le hshort, pow_zero]
      exact_mod_cast Nat.pos_of_ne_zero hn
  · exact_mod_cast (Nat.length_toDigits_le_iff (by norm_num) hpos).1 le_rfl

/-- A positive ratio is not below the power of ten that starts the search. -/
theorem decimalExponent_le {num den : ℕ} (hnum : num ≠ 0) (hden : den ≠ 0) :
    (10 : ℚ) ^ decimalExponent num den ≤ num / den := by
  have hpos : (0 : ℚ) < den := by exact_mod_cast Nat.pos_of_ne_zero hden
  have hnum' : 0 < (Nat.toDigits 10 num).length := Nat.length_toDigits_pos
  have hden' : 0 < (Nat.toDigits 10 den).length := Nat.length_toDigits_pos
  have hbounds := (ratio_bounds (by norm_num) (pow_length_toDigits hnum)
    (pow_length_toDigits hden)).1
  unfold decimalExponent
  dsimp only
  have hguess : (((Nat.toDigits 10 num).length - 1 : ℕ) : ℤ) -
      ((Nat.toDigits 10 den).length - 1 : ℕ) =
        ((Nat.toDigits 10 num).length : ℤ) - (Nat.toDigits 10 den).length := by omega
  rw [hguess] at hbounds
  generalize ((Nat.toDigits 10 num).length : ℤ) - (Nat.toDigits 10 den).length = guess at *
  simp only [Nat.pow_eq]
  by_cases hreached : if 0 ≤ guess then 10 ^ guess.natAbs * den ≤ num
      else den ≤ num * 10 ^ guess.natAbs
  · rw [if_pos hreached, le_div_iff₀ hpos]
    rw [ten_pow_natAbs]
    split
    · rename_i hle
      rw [if_pos hle] at hreached
      exact_mod_cast hreached
    · rename_i hlt
      rw [if_neg hlt] at hreached
      rw [inv_mul_le_iff₀ (by positivity), mul_comm]
      exact_mod_cast hreached
  · rw [if_neg hreached]
    exact hbounds.le

/-- Rounding a ratio of naturals down. -/
theorem floor_bounds (num : ℕ) {den : ℕ} (hden : 0 < den) :
    ((num / den : ℕ) : ℚ) ≤ num / den ∧ (num : ℚ) / den < (num / den : ℕ) + 1 := by
  have hpos : (0 : ℚ) < den := by exact_mod_cast hden
  rw [le_div_iff₀ hpos, div_lt_iff₀ hpos]
  constructor
  · exact_mod_cast Nat.div_mul_le_self num den
  · exact_mod_cast Nat.lt_mul_of_div_lt (Nat.lt_succ_self _) hden

/-- The decimal that the search tests on a grid, and the next one, lie around the number. -/
theorem grid_bounds (b : Binary) (e : ℤ) :
    let c :=
      if 0 ≤ e then b.interval.value * b.interval.num / (b.interval.den * Nat.pow 10 e.natAbs)
      else b.interval.value * b.interval.num * Nat.pow 10 e.natAbs / b.interval.den
    (c : ℚ) * 10 ^ e ≤ b.magnitude ∧ b.magnitude < (c + 1 : ℕ) * 10 ^ e := by
  intro c
  obtain ⟨hpos, hquarter⟩ := b.quarter_eq
  have hpos' : (0 : ℚ) < b.interval.den := by exact_mod_cast hpos
  have hpow : (0 : ℚ) < 10 ^ e := by positivity
  have hvalue : (b.interval.value : ℚ) = 4 * b.significand := by
    unfold interval
    push_cast
    rfl
  have hmagnitude : (b.interval.value : ℚ) * b.interval.num = b.magnitude * b.interval.den := by
    rw [hvalue, hquarter, two_pow_sub_two]
    unfold magnitude
    ring
  -- In both cases the number is divided by the power of ten.
  have hratio : ∃ n d : ℕ, 0 < d ∧ c = n / d ∧ (n : ℚ) / d = b.magnitude / 10 ^ e := by
    rw [ten_pow_natAbs e]
    by_cases hle : 0 ≤ e
    · refine ⟨_, b.interval.den * Nat.pow 10 e.natAbs, by rw [Nat.pow_eq]; positivity,
        if_pos hle, ?_⟩
      rw [if_pos hle, Nat.pow_eq]
      push_cast
      rw [hmagnitude]
      field_simp
    · refine ⟨_, _, hpos, if_neg hle, ?_⟩
      rw [if_neg hle, Nat.pow_eq]
      push_cast
      rw [hmagnitude]
      field_simp
  obtain ⟨n, d, hd, hc, hratio⟩ := hratio
  obtain ⟨hfloor, hceil⟩ := floor_bounds n hd
  rw [← hc, hratio] at hfloor hceil
  rw [le_div_iff₀ hpow] at hfloor
  rw [div_lt_iff₀ hpow] at hceil
  push_cast
  exact ⟨hfloor, hceil⟩

/-- A grid that is finer than what the number covers has a decimal that it covers. -/
theorem exists_onGrid? {b : Binary} (hne : b.significand ≠ 0) (tie : Tie) {e : ℤ}
    (hfine : (10 : ℚ) ^ e < (b.halfBelow + 1 / 2) * 2 ^ b.exponent) :
    (b.interval.onGrid? tie e).isSome := by
  obtain ⟨hlow, hhigh⟩ := b.magnitude_bounds
  obtain ⟨hfloor, hceil⟩ := grid_bounds b e
  unfold Interval.onGrid?
  dsimp only at hfloor hceil ⊢
  generalize (if 0 ≤ e then b.interval.value * b.interval.num /
      (b.interval.den * Nat.pow 10 e.natAbs)
    else b.interval.value * b.interval.num * Nat.pow 10 e.natAbs / b.interval.den) = c at *
  split
  · rfl
  · rfl
  · rfl
  · rename_i hc hc'
    -- Both decimals lie beyond the ends, which are further apart than they are.
    rw [Bool.eq_false_iff] at hc hc'
    have hbelow : (c : ℚ) * 10 ^ e ≤ (b.significand - b.halfBelow) * 2 ^ b.exponent := by
      by_contra hlt
      exact hc ((holds_iff hne c e).2 (covers_of_lt (not_le.1 hlt) (hfloor.trans_lt hhigh)))
    have habove : (b.significand + 1 / 2) * 2 ^ b.exponent ≤ ((c + 1 : ℕ) : ℚ) * 10 ^ e := by
      by_contra hlt
      exact hc' ((holds_iff hne (c + 1) e).2 (covers_of_lt (hlow.trans hceil) (not_le.1 hlt)))
    push_cast at habove
    linarith

/-- The shortest decimal of a number is one that it covers. -/
theorem covers_shortest {b : Binary} (hb : b.Canonical) (hne : b.significand ≠ 0) (tie : Tie) :
    b.Covers (b.shortest tie).value := by
  have hvalue : b.interval.value = 4 * b.significand := rfl
  obtain ⟨hpos, hquarter⟩ := b.quarter_eq
  have hpos' : (0 : ℚ) < b.interval.den := by exact_mod_cast hpos
  have hnum : b.interval.num ≠ 0 := by
    have : (0 : ℚ) < b.interval.num := by
      rw [hquarter]
      positivity
    exact_mod_cast this.ne'
  have hproduct : b.interval.value * b.interval.num ≠ 0 := Nat.mul_ne_zero (by omega) hnum
  have htop := decimalExponent_le hproduct hpos.ne'
  have hmagnitude : ((b.interval.value * b.interval.num : ℕ) : ℚ) / b.interval.den =
      b.magnitude := by
    rw [Nat.cast_mul, hquarter, hvalue, two_pow_sub_two, div_eq_iff hpos'.ne']
    unfold magnitude
    push_cast
    ring
  rw [hmagnitude] at htop
  -- Seventeen digits of the number are finer than its last place.
  have hfine : (10 : ℚ) ^ (decimalExponent (b.interval.value * b.interval.num) b.interval.den -
      (16 : ℕ)) < (b.halfBelow + 1 / 2) * 2 ^ b.exponent := by
    rw [zpow_sub₀ (by norm_num), zpow_natCast, div_lt_iff₀ (by positivity)]
    refine htop.trans_lt ?_
    have hlt : (b.significand : ℚ) < (b.halfBelow + 1 / 2) * 10 ^ 16 := by
      have hsignificand : (b.significand : ℚ) < 2 ^ 53 := by exact_mod_cast hb.significand_lt
      unfold halfBelow
      split
      · rename_i hpower
        rw [hpower.1]
        norm_num [normal]
      · linarith
    unfold magnitude
    have : (0 : ℚ) < 2 ^ b.exponent := by positivity
    nlinarith
  unfold shortest
  rw [if_neg hne]
  dsimp only
  rw [Scientific.value_strip]
  exact (holds_iff hne _ _).1 (holds_search (by norm_num) (exists_onGrid? hne tie hfine))

end Binary

end LiveScope
