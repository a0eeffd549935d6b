import LiveScope.Proofs.Decimal.Nearest
import Mathlib

/-!
# The exact form of a float

`Binary.ofFloat?` takes a float apart and `Binary.toFloat` puts it together. Every finite float has
an exact form (`Binary.isSome_ofFloat?`), which is canonical (`Binary.canonical_of_ofFloat?`) and is
put together to the same float (`Binary.toFloat_of_ofFloat?`).
-/

namespace LiveScope.Binary

/-- What the three fields of a float's bits stand for: sign, biased exponent and fraction. -/
def ofFields (sign biased fraction : Nat) : Binary :=
  if biased = 0 then ⟨sign == 1, fraction, minExponent⟩
  else ⟨sign == 1, normal + fraction, (biased : Int) - 1075⟩

/-- The exact form of a float is read off the fields of its bits. -/
theorem exists_fields {x : Float} {b : Binary} (h : ofFloat? x = some b) :
    ∃ sign biased fraction, sign < 2 ∧ biased < 2047 ∧ fraction < 2 ^ 52 ∧
      x.toBits.toNat = sign * 2 ^ 63 + biased * 2 ^ 52 + fraction ∧
      b = ofFields sign biased fraction := by
  have hlt : x.toBits.toNat < 2 ^ 64 := x.toBits.toNat_lt
  unfold ofFloat? at h
  simp only [Nat.pow_eq] at h
  refine ⟨x.toBits.toNat / 2 ^ 63 % 2, x.toBits.toNat / 2 ^ 52 % 2 ^ 11, x.toBits.toNat % 2 ^ 52,
    Nat.mod_lt _ (by norm_num), ?_, Nat.mod_lt _ (by norm_num), by omega, ?_⟩
  · split at h
    · cases h
    · omega
  · split at h
    · cases h
    · unfold ofFields
      split at h
      · rename_i hzero
        rw [if_pos hzero]
        exact (Option.some.inj h).symm
      · rename_i hne
        rw [if_neg hne]
        exact (Option.some.inj h).symm

/-- The exact form of a float is canonical. -/
theorem canonical_of_ofFloat? {x : Float} {b : Binary} (h : ofFloat? x = some b) : b.Canonical := by
  obtain ⟨sign, biased, fraction, _, hbiased, hfraction, _, rfl⟩ := exists_fields h
  have hnormal : normal = 2 ^ 52 := rfl
  have hmin : minExponent = -1074 := rfl
  unfold ofFields
  split
  · exact ⟨by dsimp only; omega, le_rfl, by dsimp only; omega, .inr rfl⟩
  · exact ⟨by dsimp only; omega, by dsimp only; omega, by dsimp only; omega,
      .inl (Nat.le_add_right _ _)⟩

/-- A float is put together from its exact form. -/
theorem toFloat_of_ofFloat? {x : Float} {b : Binary} (h : ofFloat? x = some b) : b.toFloat = x := by
  obtain ⟨sign, biased, fraction, hsign, hbiased, hfraction, hbits, rfl⟩ := exists_fields h
  have hnormal : normal = 2 ^ 52 := rfl
  have hmagnitude : (if (ofFields sign biased fraction).significand < normal
      then (ofFields sign biased fraction).significand
      else if 971 < (ofFields sign biased fraction).exponent then 2047 * 2 ^ 52
      else ((ofFields sign biased fraction).exponent + 1075).toNat * 2 ^ 52 +
        ((ofFields sign biased fraction).significand - normal)) = biased * 2 ^ 52 + fraction := by
    unfold ofFields
    split
    · rw [if_pos (by dsimp only; omega)]
      dsimp only
      omega
    · rw [if_neg (by dsimp only; omega), if_neg (by dsimp only; omega)]
      dsimp only
      omega
  have hsigned : (if (ofFields sign biased fraction).negative then 2 ^ 63 else 0) =
      sign * 2 ^ 63 := by
    have hneg : (ofFields sign biased fraction).negative = (sign == 1) := by
      unfold ofFields
      split <;> rfl
    rw [hneg]
    interval_cases sign <;> rfl
  unfold toFloat
  simp only [Nat.pow_eq]
  rw [hmagnitude, hsigned, ← Nat.add_assoc, ← hbits, UInt64.ofNat_toNat, Float.ofBits_toBits]

/-- The finite floats are those with an exact form. -/
theorem isSome_ofFloat? (x : Float) : (ofFloat? x).isSome = x.isFinite := by
  have hexponent : @Float.Model.UnpackedFloat.unpackExponent .binary64 x.toBits.toBitVec =
      -1#11 ↔ x.toBits.toNat / 2 ^ 52 % 2 ^ 11 = 2047 := by
    rw [Float.Model.UnpackedFloat.unpackExponent_def, ← BitVec.toNat_inj, BitVec.extractLsb'_toNat,
      Nat.shiftRight_eq_div_pow]
    rfl
  have hmodel : x.isFinite =
      (Float.Model.UnpackedFloat.unpack .binary64 x.toBits.toBitVec).isFinite := rfl
  rw [hmodel]
  unfold ofFloat? Float.Model.UnpackedFloat.unpack
  simp only [Nat.pow_eq]
  by_cases h : x.toBits.toNat / 2 ^ 52 % 2 ^ 11 = 2047
  · rw [if_pos h, if_pos (hexponent.2 h)]
    split <;> rfl
  · rw [if_neg h, if_neg (mt hexponent.1 h)]
    split
    · split
      · split <;> rfl
      · rfl
    · split
      · split <;> rfl
      · rfl

/-- The float of bits whose highest is clear has no sign: NaN has none either. -/
theorem toBits_ofBits_lt {bits : UInt64} (h : bits.toNat < 2 ^ 63) :
    (Float.ofBits bits).toBits.toNat < 2 ^ 63 := by
  have hpack : (Float.ofBits bits).toBits.toBitVec = Float.Model.UnpackedFloat.pack .binary64
      (Float.Model.UnpackedFloat.unpack .binary64 bits.toBitVec) := rfl
  rw [Float.Model.UnpackedFloat.pack_unpack] at hpack
  rw [← UInt64.toNat_toBitVec, hpack]
  split
  · decide
  · exact h

/-- A float that is put together without a sign has none. -/
theorem negative_of_toFloat {b c : Binary} (hnegative : b.negative = false)
    (hsignificand : b.significand < 2 ^ 53) (h : ofFloat? b.toFloat = some c) :
    c.negative = false := by
  have hnormal : normal = 2 ^ 52 := rfl
  have hlt : b.toFloat.toBits.toNat < 2 ^ 63 := by
    unfold toFloat
    simp only [Nat.pow_eq]
    refine toBits_ofBits_lt ?_
    rw [hnegative, if_neg Bool.false_ne_true, Nat.zero_add, UInt64.toNat_ofNat']
    refine Nat.lt_of_le_of_lt (Nat.mod_le _ _) ?_
    split
    · omega
    · split
      · norm_num
      · omega
  obtain ⟨sign, biased, fraction, hsign, _, _, hbits, rfl⟩ := exists_fields h
  obtain rfl : sign = 0 := by omega
  unfold ofFields
  split <;> rfl

end LiveScope.Binary
