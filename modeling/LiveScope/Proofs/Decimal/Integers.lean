import LiveScope.Model.Snapshot
import LiveScope.Proofs.Decimal.Rereading

/-!
# Numbers in documents

An integral number below `2 ^ 53` is written as an integer and any other finite one as it is. Both
are read as the number that was written, up to the sign of zero (`Model.toDatum_numberToJson`), and
equal numbers are written alike (`Model.numberToJson_congr`).
-/

namespace LiveScope

open Float.Model (UnpackedFloat)

namespace Number

/-! ## Equal numbers -/

/-- A number is put together from its parts. -/
theorem pack_unpack (x : Float) :
    UnpackedFloat.pack .binary64 x.toModel.unpack = x.toBits.toBitVec := by
  have hpack : UnpackedFloat.pack .binary64 x.toModel.unpack = _ :=
    @UnpackedFloat.pack_unpack .binary64 x.toBits.toBitVec (by decide)
  rw [hpack]
  split
  · rename_i hnan
    -- There is only one NaN.
    obtain ⟨hexponent, hmantissa⟩ := of_decide_eq_true hnan
    exact (x.toModel.valid.eq_packedNaN hexponent hmantissa).symm
  · rfl

/-- A number is determined by its parts. -/
theorem eq_of_unpack_eq {x y : Float} (h : x.toModel.unpack = y.toModel.unpack) : x = y := by
  have hbits : x.toBits = y.toBits := by
    rw [← UInt64.toBitVec_inj, ← pack_unpack, ← pack_unpack, h]
  rw [← Float.ofBits_toBits x, ← Float.ofBits_toBits y, hbits]

/-- A number without magnitude is zero. -/
theorem eq_zero_of_unpack {x : Float} {s : UnpackedFloat.Sign}
    (h : x.toModel.unpack = .zero s) : x = 0.0 ∨ x = -0.0 := by
  cases s with
  | positive => exact .inl (eq_of_unpack_eq (h.trans rfl))
  | negative => exact .inr (eq_of_unpack_eq (h.trans rfl))

/-- A finite number is equal to itself. -/
theorem beq_self_of_isFinite {x : Float} (h : x.isFinite = true) : (x == x) = true := by
  show x.toModel.unpack.beq x.toModel.unpack = true
  have hparts : x.toModel.unpack.isFinite = true := h
  cases hunpack : x.toModel.unpack with
  | infinity s =>
    rw [hunpack] at hparts
    cases hparts
  | notANumber =>
    rw [hunpack] at hparts
    cases hparts
  | zero s => cases s <;> rfl
  | finite s significand exponent =>
    cases s <;> simp [UnpackedFloat.beq, UnpackedFloat.compare]

/-- Numbers that are equal are the same, or both are zero. -/
theorem eq_or_zero_of_beq {x y : Float} (h : (x == y) = true) :
    x = y ∨ (x = 0.0 ∨ x = -0.0) ∧ (y = 0.0 ∨ y = -0.0) := by
  have hcompare : x.toModel.unpack.compare y.toModel.unpack = some .eq := by
    have hbeq : x.toModel.unpack.beq y.toModel.unpack = true := h
    simpa [UnpackedFloat.beq] using hbeq
  have hparts : x.toModel.unpack = y.toModel.unpack ∨
      ∃ s s', x.toModel.unpack = .zero s ∧ y.toModel.unpack = .zero s' := by
    generalize x.toModel.unpack = u at *
    generalize y.toModel.unpack = v at *
    unfold UnpackedFloat.compare at hcompare
    split at hcompare
    case h_3 s s' => cases s <;> cases s' <;> simp_all
    all_goals simp_all
  rcases hparts with hparts | ⟨s, s', hs, hs'⟩
  · exact .inl (eq_of_unpack_eq hparts)
  · exact .inr ⟨eq_zero_of_unpack hs, eq_zero_of_unpack hs'⟩

/-! ## Integral numbers -/

/-- The number of an integral number is equal to it, and the same unless it is zero. -/
theorem ofInt_of_integer? {x : Float} {n : ℤ} (h : integer? x = some n) :
    (x == ofInt n) = true := by
  obtain ⟨b, hb, h⟩ := Option.bind_eq_some_iff.1 h
  obtain ⟨k, hk, h⟩ := Option.bind_eq_some_iff.1 h
  obtain rfl := Option.some.inj h
  have hmagnitude := magnitude_of_natural? hk
  have hx := Binary.toFloat_of_ofFloat? hb
  by_cases hzero : k = 0
  · -- Zero is read without its sign.
    subst hzero
    have hsignificand : b.significand = 0 := by
      unfold Binary.magnitude at hmagnitude
      have hpow : (2 : ℚ) ^ b.exponent ≠ 0 := by positivity
      have hcast := (mul_eq_zero.1 hmagnitude.symm).resolve_right hpow
      exact_mod_cast hcast
    rw [← hx]
    unfold Binary.toFloat
    rw [hsignificand, if_pos (show 0 < Binary.normal by decide)]
    cases b.negative with
    | false => decide +kernel
    | true => decide +kernel
  · -- Any other number is what its own magnitude is rounded to.
    have hfinite : x.isFinite = true := by rw [← Binary.isSome_ofFloat?, hb]; rfl
    have hcovers : b.Covers ((k : ℚ) / 1) := by
      rw [div_one, hmagnitude]
      exact Binary.covers_of_lt b.magnitude_bounds.1 b.magnitude_bounds.2
    have hnearest := Binary.nearest_of_covers (Binary.canonical_of_ofFloat? hb) hzero one_ne_zero
      (by exact_mod_cast hcovers) b.negative
    have hsame : ofInt (if b.negative then -(k : ℤ) else k) = x := by
      unfold ofInt Binary.ofRatio
      have hsign : decide ((if b.negative then -(k : ℤ) else k) < 0) = b.negative := by
        cases b.negative with
        | false => simp
        | true => simpa using Nat.pos_of_ne_zero hzero
      have habs : (if b.negative then -(k : ℤ) else k).natAbs = k := by
        cases b.negative with
        | false => simp
        | true => simp
      rw [hsign, habs, hnearest, hx]
    rw [hsame]
    exact beq_self_of_isFinite hfinite

end Number

namespace Model

/-- Equal numbers are written alike. -/
theorem numberToJson_congr {x y : Float} (h : (x == y) = true) :
    numberToJson x = numberToJson y := by
  have hzero {z : Float} (hz : z = 0.0 ∨ z = -0.0) : numberToJson z = .integer 0 := by
    have hinteger : Number.integer? z = some 0 := by
      rcases hz with rfl | rfl
      · decide +kernel
      · decide +kernel
    unfold numberToJson
    rw [hinteger]
    rfl
  rcases Number.eq_or_zero_of_beq h with rfl | ⟨hx, hy⟩
  · rfl
  · rw [hzero hx, hzero hy]

/-- A finite number is read from what is written of it. -/
theorem toDatum_numberToJson {x : Float} (h : x.isFinite = true) :
    ∃ y, (numberToJson x).toDatum = .number y ∧ (x == y) = true := by
  unfold numberToJson
  cases hn : Number.integer? x with
  | none =>
    dsimp only
    rw [if_pos h]
    exact ⟨x, rfl, Number.beq_self_of_isFinite h⟩
  | some n =>
    dsimp only
    split
    · exact ⟨Number.ofInt n, rfl, Number.ofInt_of_integer? hn⟩
    · exact ⟨x, rfl, Number.beq_self_of_isFinite h⟩

end Model

end LiveScope
