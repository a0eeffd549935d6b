import LiveScope.Decimal.Binary
import Mathlib.Algebra.Order.Field.Power
import Mathlib.Algebra.Order.Field.Rat
import Mathlib.Tactic.FieldSimp
import Mathlib.Tactic.Linarith
import Mathlib.Tactic.Positivity
import Mathlib.Tactic.Ring

/-!
# The nearest number

`Binary.nearest` computes on naturals. What it computes is said here on rationals: the exponent is
the one that brings the ratio into the range of the significand (`Binary.scale_spec`), and every
ratio that lies half way to the neighbours of a number or closer, the ends included if the
significand is even, is rounded to that number (`Binary.nearest_of_covers`).
-/

namespace LiveScope.Binary

/-- Whether a number is in the form that floats have: the significand fits into its bits and uses
the highest one, unless the exponent is the least one. -/
structure Canonical (b : Binary) : Prop where
  /-- The significand fits. -/
  significand_lt : b.significand < 2 ^ 53
  /-- The exponent is not too small. -/
  le_exponent : minExponent ≤ b.exponent
  /-- The exponent is not too large. -/
  exponent_le : b.exponent ≤ 971
  /-- The highest bit is in use if it can be. -/
  normalized : normal ≤ b.significand ∨ b.exponent = minExponent

/-- The absolute value. -/
def magnitude (b : Binary) : ℚ := b.significand * 2 ^ b.exponent

/-- How far it is half way down to the next smaller number, in units of the last place: below a
power of two the numbers are twice as dense. -/
def halfBelow (b : Binary) : ℚ := if b.significand = normal ∧ minExponent < b.exponent then 1 / 4
  else 1 / 2

/-- Whether a number is the nearest to a positive rational, with the even significand if the
rational is half way to a neighbour. -/
def Covers (b : Binary) (v : ℚ) : Prop :=
  if b.significand % 2 = 0 then
    (b.significand - b.halfBelow) * 2 ^ b.exponent ≤ v ∧
      v ≤ (b.significand + 1 / 2) * 2 ^ b.exponent
  else
    (b.significand - b.halfBelow) * 2 ^ b.exponent < v ∧
      v < (b.significand + 1 / 2) * 2 ^ b.exponent

/-! ## Rounding a ratio -/

/-- Rounding gives the natural that the ratio is closer to than one half, or as close if it is
even. -/
theorem roundHalfEven_eq {num den k : ℕ} (hlow : 2 * k * den ≤ 2 * num + den)
    (hhigh : 2 * num ≤ 2 * k * den + den)
    (htie : k % 2 = 1 → 2 * k * den < 2 * num + den ∧ 2 * num < 2 * k * den + den)
    (hden : 0 < den) : roundHalfEven num den = k := by
  have hdiv : den * (num / den) + num % den = num := Nat.div_add_mod num den
  have hmod : num % den < den := Nat.mod_lt num hden
  unfold roundHalfEven
  dsimp only
  generalize num / den = low at *
  generalize num % den = rest at *
  subst hdiv
  -- Comparing multiples of the denominator compares the factors.
  have cancel {i j : ℕ} (h : den * i < den * j) : i < j := Nat.lt_of_mul_lt_mul_left h
  split
  · have h1 : k < low + 1 := cancel (by nlinarith)
    have h2 : low < k + 1 := cancel (by nlinarith)
    omega
  · split
    · have h1 : k < low + 2 := cancel (by nlinarith)
      have h2 : low < k := cancel (by nlinarith)
      omega
    · have hhalf : 2 * rest = den := by omega
      have h1 : k < low + 2 := cancel (by nlinarith)
      have h2 : low < k + 1 := cancel (by nlinarith)
      rcases Nat.mod_two_eq_zero_or_one k with heven | hodd
      · omega
      · obtain ⟨h3, h4⟩ := htie hodd
        have h5 : k < low + 1 := cancel (by nlinarith)
        have h6 : low < k := cancel (by nlinarith)
        omega

/-- The same for the quotient of the terms. -/
theorem roundHalfEven_of_div {num den k : ℕ} (hden : 0 < den) (hlow : (k : ℚ) - 1 / 2 ≤ num / den)
    (hhigh : (num : ℚ) / den ≤ k + 1 / 2)
    (htie : k % 2 = 1 → (k : ℚ) - 1 / 2 < num / den ∧ (num : ℚ) / den < k + 1 / 2) :
    roundHalfEven num den = k := by
  have hpos : (0 : ℚ) < den := by exact_mod_cast hden
  refine roundHalfEven_eq ?_ ?_ (fun hodd => ⟨?_, ?_⟩) hden
  · rw [le_div_iff₀ hpos] at hlow
    have : (2 : ℚ) * k * den ≤ 2 * num + den := by linarith
    exact_mod_cast this
  · rw [div_le_iff₀ hpos] at hhigh
    have : (2 : ℚ) * num ≤ 2 * k * den + den := by linarith
    exact_mod_cast this
  · have h := (htie hodd).1
    rw [lt_div_iff₀ hpos] at h
    have : (2 : ℚ) * k * den < 2 * num + den := by linarith
    exact_mod_cast this
  · have h := (htie hodd).2
    rw [div_lt_iff₀ hpos] at h
    have : (2 : ℚ) * num < 2 * k * den + den := by linarith
    exact_mod_cast this

/-- Rounding goes up by at most one. -/
theorem roundHalfEven_le (num den : ℕ) : roundHalfEven num den ≤ num / den + 1 := by
  unfold roundHalfEven
  dsimp only
  split
  · omega
  · split <;> omega

/-- Scaling multiplies a ratio by a power of two. -/
theorem scaled_spec (num : ℕ) {den : ℕ} (hden : 0 < den) (exponent : ℤ) :
    0 < (scaled num den exponent).2 ∧
      ((scaled num den exponent).1 : ℚ) / (scaled num den exponent).2 =
        (num : ℚ) / den * 2 ^ (-exponent) := by
  have hden' : (den : ℚ) ≠ 0 := by exact_mod_cast hden.ne'
  unfold scaled
  dsimp only
  rw [Nat.pow_eq]
  split
  · rename_i hle
    refine ⟨hden, ?_⟩
    have hpow : (2 : ℚ) ^ (-exponent) = 2 ^ exponent.natAbs := by
      rw [← zpow_natCast, Int.natCast_natAbs, abs_of_nonpos hle]
    dsimp only
    rw [hpow]
    push_cast
    ring
  · rename_i hlt
    refine ⟨by positivity, ?_⟩
    have hpow : (2 : ℚ) ^ (-exponent) = (2 ^ exponent.natAbs)⁻¹ := by
      rw [zpow_neg, ← zpow_natCast, Int.natCast_natAbs, abs_of_nonneg (by omega)]
    dsimp only
    rw [hpow]
    push_cast
    field_simp

/-- The exponent that `nearest` takes for a ratio. -/
def scale (num den : ℕ) : ℤ :=
  let at53 : ℤ := max minExponent ((num.log2 : ℤ) - den.log2 - 53)
  if (scaled num den at53).1 / (scaled num den at53).2 < 2 ^ 53 then at53 else at53 + 1

/-- What `nearest` gives for a ratio that is not zero. -/
theorem nearest_eq {num : ℕ} (hnum : num ≠ 0) (den : ℕ) (negative : Bool) :
    nearest negative num den =
      let significand := roundHalfEven (scaled num den (scale num den)).1
        (scaled num den (scale num den)).2
      if significand = 2 ^ 53 then ⟨negative, normal, scale num den + 1⟩
      else ⟨negative, significand, scale num den⟩ := by
  unfold nearest
  rw [if_neg hnum]
  rfl

/-- A ratio lies between powers of a base if its terms do. -/
theorem ratio_bounds {base : ℚ} (hbase : 0 < base) {num den i j : ℕ}
    (hnum : base ^ i ≤ num ∧ (num : ℚ) < base ^ (i + 1))
    (hden : base ^ j ≤ den ∧ (den : ℚ) < base ^ (j + 1)) :
    base ^ ((i : ℤ) - j - 1) < (num : ℚ) / den ∧ (num : ℚ) / den < base ^ ((i : ℤ) - j + 1) := by
  have hpos : (0 : ℚ) < den := lt_of_lt_of_le (by positivity) hden.1
  constructor
  · rw [lt_div_iff₀ hpos]
    calc base ^ ((i : ℤ) - j - 1) * den
        < base ^ ((i : ℤ) - j - 1) * base ^ (j + 1) := by
          gcongr
          exact hden.2
      _ = base ^ i := by
          rw [← zpow_natCast, ← zpow_add₀ hbase.ne', ← zpow_natCast]
          congr 1
          omega
      _ ≤ num := hnum.1
  · rw [div_lt_iff₀ hpos]
    calc (num : ℚ) < base ^ (i + 1) := hnum.2
      _ = base ^ ((i : ℤ) - j + 1) * base ^ j := by
          rw [← zpow_natCast, ← zpow_natCast, ← zpow_add₀ hbase.ne']
          congr 1
          omega
      _ ≤ base ^ ((i : ℤ) - j + 1) * den := by
          gcongr
          exact hden.1

/-- A ratio lies between powers of two that the logarithms of its terms tell. -/
theorem log2_bounds {num den : ℕ} (hnum : num ≠ 0) (hden : den ≠ 0) :
    (2 : ℚ) ^ ((num.log2 : ℤ) - den.log2 - 1) < (num : ℚ) / den ∧
      (num : ℚ) / den < 2 ^ ((num.log2 : ℤ) - den.log2 + 1) := by
  refine ratio_bounds (by norm_num) ⟨?_, ?_⟩ ⟨?_, ?_⟩
  · exact_mod_cast Nat.log2_self_le hnum
  · exact_mod_cast Nat.lt_log2_self
  · exact_mod_cast Nat.log2_self_le hden
  · exact_mod_cast Nat.lt_log2_self

/-- Whether a scaled ratio fits into a significand. -/
theorem scaled_lt_iff (num : ℕ) {den : ℕ} (hden : 0 < den) (exponent : ℤ) :
    (scaled num den exponent).1 / (scaled num den exponent).2 < 2 ^ 53 ↔
      (num : ℚ) / den < 2 ^ 53 * 2 ^ exponent := by
  obtain ⟨hpos, hratio⟩ := scaled_spec num hden exponent
  have hpos' : (0 : ℚ) < (scaled num den exponent).2 := by exact_mod_cast hpos
  have hpow : (0 : ℚ) < 2 ^ exponent := by positivity
  have hcast : (scaled num den exponent).1 < 2 ^ 53 * (scaled num den exponent).2 ↔
      ((scaled num den exponent).1 : ℚ) < 2 ^ 53 * (scaled num den exponent).2 := by
    exact_mod_cast Iff.rfl
  rw [Nat.div_lt_iff_lt_mul hpos, hcast, ← div_lt_iff₀ hpos', hratio, zpow_neg, ← div_eq_mul_inv,
    div_lt_iff₀ hpow]

/-- The exponent brings the ratio below `2 ^ 53`, and not below `2 ^ 52` unless it is the least
one. -/
theorem scale_spec {num den : ℕ} (hnum : num ≠ 0) (hden : den ≠ 0) :
    minExponent ≤ scale num den ∧ (num : ℚ) / den < 2 ^ 53 * 2 ^ scale num den ∧
      (scale num den = minExponent ∨ 2 ^ 52 * 2 ^ scale num den ≤ (num : ℚ) / den) := by
  obtain ⟨hlow, hhigh⟩ := log2_bounds hnum hden
  have htwice (e : ℤ) : (2 : ℚ) ^ 52 * 2 ^ (e + 1) = 2 ^ 53 * 2 ^ e := by
    rw [zpow_add_one₀ (by norm_num)]
    ring
  have hshift (k : ℕ) (e : ℤ) : (2 : ℚ) ^ k * 2 ^ e = 2 ^ (k + e) := by
    rw [zpow_add₀ (by norm_num), zpow_natCast]
  have hfits := scaled_lt_iff num (Nat.pos_of_ne_zero hden)
    (max minExponent ((num.log2 : ℤ) - den.log2 - 53))
  unfold scale
  dsimp only
  split
  · -- The exponent that the lengths suggest is right, or it is cut off at the least one.
    rename_i hlt
    refine ⟨le_max_left _ _, hfits.1 hlt, ?_⟩
    rcases le_total ((num.log2 : ℤ) - den.log2 - 53) minExponent with hle | hle
    · exact .inl (max_eq_left hle)
    · have hexponent : ((52 : ℕ) : ℤ) + ((num.log2 : ℤ) - den.log2 - 53) =
          (num.log2 : ℤ) - den.log2 - 1 := by omega
      rw [max_eq_right hle, hshift, hexponent]
      exact .inr hlow.le
  · -- It is too small by one, for the lengths determine the ratio up to a factor of four only.
    rename_i hnot
    have hmin := le_max_left minExponent ((num.log2 : ℤ) - den.log2 - 53)
    have hguess := le_max_right minExponent ((num.log2 : ℤ) - den.log2 - 53)
    refine ⟨by omega, ?_, .inr ?_⟩
    · refine hhigh.trans_le ?_
      rw [hshift]
      exact zpow_le_zpow_right₀ (by norm_num) (by omega)
    · rw [htwice]
      exact not_lt.1 (mt hfits.2 hnot)

/-- The nearest number has the sign asked for, and its significand fits. -/
theorem nearest_fits (negative : Bool) (num : ℕ) {den : ℕ} (hden : den ≠ 0) :
    (nearest negative num den).negative = negative ∧
      (nearest negative num den).significand < 2 ^ 53 := by
  by_cases hnum : num = 0
  · unfold nearest
    rw [if_pos hnum]
    exact ⟨rfl, by norm_num⟩
  · have hlt := (scaled_lt_iff num (Nat.pos_of_ne_zero hden) _).2 (scale_spec hnum hden).2.1
    have hround := roundHalfEven_le (scaled num den (scale num den)).1
      (scaled num den (scale num den)).2
    rw [nearest_eq hnum]
    dsimp only
    split
    · exact ⟨rfl, by norm_num [normal]⟩
    · refine ⟨rfl, ?_⟩
      dsimp only
      omega

/-! ## The ratios that are rounded to a number -/

variable {b : Binary}

/-- It is not less than a quarter and not more than half a unit. -/
theorem halfBelow_bounds (b : Binary) : 1 / 4 ≤ b.halfBelow ∧ b.halfBelow ≤ 1 / 2 := by
  unfold halfBelow
  split <;> norm_num

/-- What lies between the ends is covered. -/
theorem covers_of_lt {v : ℚ} (hlow : (b.significand - b.halfBelow) * 2 ^ b.exponent < v)
    (hhigh : v < (b.significand + 1 / 2) * 2 ^ b.exponent) : b.Covers v := by
  unfold Covers
  split
  · exact ⟨hlow.le, hhigh.le⟩
  · exact ⟨hlow, hhigh⟩

/-- A number lies between the ends of what it covers. -/
theorem magnitude_bounds (b : Binary) :
    (b.significand - b.halfBelow) * 2 ^ b.exponent < b.magnitude ∧
      b.magnitude < (b.significand + 1 / 2) * 2 ^ b.exponent := by
  obtain ⟨hbelow, _⟩ := b.halfBelow_bounds
  unfold magnitude
  constructor
  · gcongr
    linarith
  · gcongr
    linarith

/-- The ends of what a number covers, of which both may belong to it. -/
theorem Covers.bounds {v : ℚ} (h : b.Covers v) :
    (b.significand - b.halfBelow) * 2 ^ b.exponent ≤ v ∧
      v ≤ (b.significand + 1 / 2) * 2 ^ b.exponent := by
  unfold Covers at h
  split at h
  · exact h
  · exact ⟨h.1.le, h.2.le⟩

/-- The ratio is scaled by the exponent of the number that covers it, unless it is below a power of
two and so among the numbers that are twice as dense. -/
theorem scale_cases (hb : b.Canonical) {num den : ℕ} (hnum : num ≠ 0) (hden : den ≠ 0)
    (h : b.Covers (num / den)) :
    scale num den = b.exponent ∨
      (scale num den = b.exponent - 1 ∧ b.significand = normal ∧ b.halfBelow = 1 / 4) := by
  obtain ⟨hmin, hhigh, hlow⟩ := scale_spec hnum hden
  obtain ⟨hcoverlow, hcoverhigh⟩ := h.bounds
  have hle : (b.significand : ℚ) + 1 ≤ 2 ^ 53 := by exact_mod_cast hb.significand_lt
  have hnormal : (normal : ℚ) = 2 ^ 52 := by norm_num [normal]
  -- Powers of two are compared by their exponents.
  have hpos (e : ℤ) : (0 : ℚ) < 2 ^ e := by positivity
  have hmono {e f : ℤ} (hef : e ≤ f) : (2 : ℚ) ^ e ≤ 2 ^ f := zpow_le_zpow_right₀ (by norm_num) hef
  have hsucc (e : ℤ) : (2 : ℚ) ^ (e + 1) = 2 ^ e * 2 := zpow_add_one₀ (by norm_num) e
  have hupper : (num : ℚ) / den < 2 ^ 53 * 2 ^ b.exponent := by
    refine hcoverhigh.trans_lt ?_
    have := hpos b.exponent
    gcongr
    linarith
  have hle_exponent : scale num den ≤ b.exponent := by
    by_contra hgt
    rcases hlow with hlow | hlow
    · have := hb.le_exponent
      omega
    · have hstep := hmono (show b.exponent + 1 ≤ scale num den by omega)
      rw [hsucc] at hstep
      linarith
  by_cases hdense : 2 ^ 52 * 2 ^ b.exponent ≤ (num : ℚ) / den ∨ b.exponent = minExponent
  · left
    refine le_antisymm hle_exponent ?_
    by_contra hlt
    rcases hdense with hdense | hdense
    · have hstep := hmono (show scale num den + 1 ≤ b.exponent by omega)
      rw [hsucc] at hstep
      linarith
    · omega
  · right
    obtain ⟨hbelow, hne⟩ := not_or.1 hdense
    rw [not_le] at hbelow
    have hsignificand : b.significand = normal := by
      refine le_antisymm ?_ (hb.normalized.resolve_right hne)
      have hhalf := b.halfBelow_bounds.2
      have hlt : (b.significand : ℚ) - b.halfBelow < 2 ^ 52 :=
        lt_of_mul_lt_mul_right (hcoverlow.trans_lt hbelow) (hpos _).le
      have : (b.significand : ℚ) < normal + 1 := by
        rw [hnormal]
        linarith
      exact Nat.lt_succ_iff.1 (by exact_mod_cast this)
    have hquarter : b.halfBelow = 1 / 4 := by
      have := hb.le_exponent
      exact if_pos ⟨hsignificand, by omega⟩
    refine ⟨le_antisymm ?_ ?_, hsignificand, hquarter⟩
    · by_contra hgt
      obtain hsame : scale num den = b.exponent := by omega
      rw [hsame] at hlow
      exact absurd (hlow.resolve_left hne) (not_le.2 hbelow)
    · by_contra hlt
      have hstep := hmono (show scale num den + 1 + 1 ≤ b.exponent by omega)
      rw [hsucc, hsucc] at hstep
      rw [hsignificand, hquarter, hnormal] at hcoverlow
      have := hpos b.exponent
      linarith

/-- What a number covers in units of its last place. -/
theorem Covers.units {v : ℚ} (h : b.Covers v) :
    b.significand - b.halfBelow ≤ v * 2 ^ (-b.exponent) ∧
      v * 2 ^ (-b.exponent) ≤ b.significand + 1 / 2 ∧
      (b.significand % 2 = 1 → b.significand - b.halfBelow < v * 2 ^ (-b.exponent) ∧
        v * 2 ^ (-b.exponent) < b.significand + 1 / 2) := by
  have hpos : (0 : ℚ) < 2 ^ b.exponent := by positivity
  rw [zpow_neg, ← div_eq_mul_inv, le_div_iff₀ hpos, div_le_iff₀ hpos]
  refine ⟨h.bounds.1, h.bounds.2, fun hodd => ?_⟩
  unfold Covers at h
  rw [if_neg (by omega)] at h
  rwa [lt_div_iff₀ hpos, div_lt_iff₀ hpos]

/-- A ratio that a number covers is rounded to the number. -/
theorem nearest_of_covers (hb : b.Canonical) {num den : ℕ} (hnum : num ≠ 0) (hden : den ≠ 0)
    (h : b.Covers (num / den)) (negative : Bool) :
    nearest negative num den = ⟨negative, b.significand, b.exponent⟩ := by
  obtain ⟨hlow, hhigh, hodd⟩ := h.units
  obtain ⟨hbelow, habove⟩ := b.halfBelow_bounds
  have hsignificand := hb.significand_lt
  rw [nearest_eq hnum]
  dsimp only
  rcases scale_cases hb hnum hden h with hscale | ⟨hscale, hpower, hquarter⟩
  · -- In units of the number the ratio is within a half of its significand.
    rw [hscale]
    obtain ⟨hpos, hratio⟩ := scaled_spec num (Nat.pos_of_ne_zero hden) b.exponent
    rw [← hratio] at hlow hhigh hodd
    have hround : roundHalfEven (scaled num den b.exponent).1 (scaled num den b.exponent).2 =
        b.significand := by
      refine roundHalfEven_of_div hpos (by linarith) hhigh fun h => ⟨?_, (hodd h).2⟩
      have := (hodd h).1
      linarith
    rw [hround, if_neg hsignificand.ne]
  · -- Below a power of two the significand is rounded up to one that does not fit.
    rw [hscale]
    obtain ⟨hpos, hratio⟩ := scaled_spec num (Nat.pos_of_ne_zero hden) (b.exponent - 1)
    have hdouble : (num : ℚ) / den * 2 ^ (-(b.exponent - 1)) =
        num / den * 2 ^ (-b.exponent) * 2 := by
      rw [neg_sub, sub_eq_neg_add, zpow_add_one₀ (by norm_num), mul_assoc]
    have hfits := (scale_spec hnum hden).2.1
    have hlt : (num : ℚ) / den * 2 ^ (-(b.exponent - 1)) < 2 ^ 53 := by
      rw [hscale] at hfits
      rwa [zpow_neg, ← div_eq_mul_inv, div_lt_iff₀ (by positivity)]
    have hnormal : (normal : ℚ) = 2 ^ 52 := by norm_num [normal]
    rw [hpower, hquarter, hnormal] at hlow
    rw [hdouble] at hratio hlt
    have hround : roundHalfEven (scaled num den (b.exponent - 1)).1
        (scaled num den (b.exponent - 1)).2 = 2 ^ 53 := by
      refine roundHalfEven_of_div hpos ?_ ?_ fun h => absurd h (by norm_num)
      · rw [hratio]
        push_cast
        linarith
      · rw [hratio]
        push_cast
        linarith
    rw [hround, if_pos rfl, sub_add_cancel, hpower]

end LiveScope.Binary
