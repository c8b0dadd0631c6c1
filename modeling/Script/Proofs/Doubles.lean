import Script.Number.Int64

namespace Script

open Float.Model UnpackedFloat

theorem log2_shiftRight (m k : Nat) : (m >>> k).log2 = m.log2 - k := by
  induction k with
  | zero => rfl
  | succ k ih =>
    have half (n : Nat) : (n / 2).log2 = n.log2 - 1 := by
      rw [Nat.log2_def n]
      split
      · rw [Nat.add_sub_cancel]
      next small =>
        have nothing : n / 2 = 0 := by omega
        rw [nothing]
        rfl
    rw [Nat.shiftRight_succ, half, ih, Nat.sub_sub]

theorem shiftRight_pos {m k : Nat} (positive : 0 < m) (h : k ≤ m.log2) : 0 < m >>> k := by
  rw [Nat.shiftRight_eq_div_pow]
  exact Nat.div_pos ((Nat.le_log2 (Nat.ne_of_gt positive)).mp h) (Nat.two_pow_pos k)

theorem targetExponent_binary64 (e : Int) :
    Format.binary64.targetExponent e = max (e - 53) (-1074) := rfl

theorem mantissa_shiftRight (em : ExtendedMantissa) (k : Nat) :
    (em >>> k).mantissa = em.mantissa >>> k := by
  induction k with
  | zero => rfl
  | succ k ih =>
    change (em >>> k).mantissa / 2 = (em.mantissa >>> k) / 2
    rw [ih]

theorem mantissa_ofMantissaAndAccuracy (m : Nat) (accuracy : Accuracy) :
    (ExtendedMantissa.ofMantissaAndAccuracy m accuracy).mantissa = m := by
  rcases accuracy with _ | relative
  · rfl
  · cases relative <;> rfl

theorem le_roundedMantissa (em : ExtendedMantissa) : em.mantissa ≤ em.roundedMantissa := by
  obtain ⟨m, roundBit, stickyBit⟩ := em
  cases roundBit <;> cases stickyBit <;>
    simp [ExtendedMantissa.roundedMantissa, ExtendedMantissa.accuracy, Accuracy.roundToNearestEven]

section Rounding

variable {m : Nat} {e : Int}

theorem mantissa_shiftToTargetExponent (accuracy : Accuracy) (positive : 0 < m)
    (least : -1074 ≤ e) :
    let shifted := shiftToTargetExponent .binary64 m e accuracy
    0 < shifted.1.mantissa ∧ shifted.1.mantissa.log2 < 53 ∧ -1074 ≤ shifted.2 := by
  have amount : (max (totalExponent m e - 53) (-1074) - e).toNat = m.log2 - 52 := by
    unfold totalExponent
    omega
  simp only [shiftToTargetExponent, shiftToExponent, targetExponent_binary64, amount,
    mantissa_shiftRight, mantissa_ofMantissaAndAccuracy, log2_shiftRight]
  exact ⟨shiftRight_pos positive (by omega), by omega, by omega⟩

theorem exists_roundWithAccuracy (sign : Sign) (accuracy : Accuracy) (positive : 0 < m)
    (least : -1074 ≤ e) :
    ∃ rounded exponent pos, roundWithAccuracy .binary64 sign m e accuracy =
      .finite sign rounded exponent pos ∧ rounded.log2 < 53 ∧ -1074 ≤ exponent := by
  obtain ⟨kept, -, first⟩ := mantissa_shiftToTargetExponent accuracy positive least
  have grown : 0 < (shiftToTargetExponent .binary64 m e accuracy).1.roundedMantissa :=
    Nat.lt_of_lt_of_le kept (le_roundedMantissa _)
  obtain ⟨pos, few, second⟩ := mantissa_shiftToTargetExponent .exact grown first
  refine ⟨_, _, pos, ?_, few, second⟩
  unfold roundWithAccuracy
  exact dif_neg (Nat.ne_of_gt pos)

theorem exists_round (sign : Sign) (positive : 0 < m) (least : -1074 ≤ e) :
    ∃ rounded exponent pos, round .binary64 sign m e = .finite sign rounded exponent pos ∧
      rounded.log2 < 53 ∧ -1074 ≤ exponent := by
  let shift := (e - Format.binary64.targetExponent (totalExponent m e)).toNat
  have shifted : 0 < m <<< shift := by
    rw [Nat.shiftLeft_eq]
    exact Nat.mul_pos positive (Nat.two_pow_pos _)
  refine exists_roundWithAccuracy sign .exact shifted ?_
  simp only [targetExponent_binary64]
  omega

theorem fields_of_unpack_eq_zero {bits : BitVec Format.binary64.numBits} {zero : Sign}
    (h : UnpackedFloat.unpack .binary64 bits = .zero zero) :
    unpackExponent bits = 0#11 ∧ unpackMantissa bits = 0#52 := by
  unfold UnpackedFloat.unpack at h
  dsimp only at h
  by_cases special : unpackExponent bits = -1#11
  · rw [if_pos special] at h
    by_cases infinite : unpackMantissa bits = 0#52
    · rw [if_pos infinite] at h
      cases h
    · rw [if_neg infinite] at h
      cases h
  rw [if_neg special] at h
  by_cases exponent : unpackExponent bits = 0#11
  · rw [if_pos exponent] at h
    by_cases mantissa : unpackMantissa bits = 0#52
    · exact ⟨exponent, mantissa⟩
    · rw [dif_neg mantissa] at h
      cases h
  · rw [if_neg exponent] at h
    cases h

theorem unpack_pack_ne_zero {sign : Sign} {pos : 0 < m} (few : m.log2 < 53) (least : -1074 ≤ e)
    (zero : Sign) :
    UnpackedFloat.unpack .binary64 (UnpackedFloat.pack .binary64 (.finite sign m e pos)) ≠
      .zero zero := by
  intro unpacked
  obtain ⟨exponent, mantissa⟩ := fields_of_unpack_eq_zero unpacked
  unfold UnpackedFloat.pack at exponent mantissa
  simp only at exponent mantissa
  split at exponent
  next =>
    rw [packedInfinity, unpackExponent_packComponents] at exponent
    cases exponent
  next bounded =>
    rw [if_neg bounded] at mantissa
    have bias : Format.binary64.exponentBias = 1023 := rfl
    have bits : Format.binary64.mantissaBits = 53 := rfl
    split at exponent
    next =>
      rw [unpackExponent_packComponents] at exponent
      have field := congrArg BitVec.toNat exponent
      rw [BitVec.toNat_ofNat, BitVec.toNat_ofNat] at field
      omega
    next subnormal =>
      rw [if_neg subnormal, unpackMantissa_packComponents] at mantissa
      have field := congrArg BitVec.toNat mantissa
      have small : m < 2 ^ 52 := (Nat.log2_lt (Nat.ne_of_gt pos)).mp (by omega)
      rw [BitVec.toNat_ofNat, BitVec.toNat_ofNat, Nat.mod_eq_of_lt small] at field
      exact absurd field (Nat.ne_of_gt pos)

end Rounding

theorem compare_zero_ne {x : UnpackedFloat} (h : ∀ zero, x ≠ .zero zero) (zero : Sign) :
    x.compare (.zero zero) ≠ some .eq := by
  rcases x with sign | _ | sign | ⟨sign, _, _, _⟩
  · cases sign <;> cases zero <;> nofun
  · nofun
  · exact absurd rfl (h sign)
  · cases sign <;> nofun

theorem unpack_floatOfInt64_ne_zero {n : Int64} (h : n ≠ 0) (zero : Sign) :
    (floatOfInt64 n).toModel.unpack ≠ .zero zero := by
  change UnpackedFloat.unpack .binary64 (UnpackedFloat.pack .binary64
    (UnpackedFloat.normalize .binary64 n.toInt 0 .positive)) ≠ _
  unfold UnpackedFloat.normalize
  split
  next below =>
    have positive : 0 < (-n.toInt).toNat := by
      have := Int.compare_eq_lt.mp below
      omega
    obtain ⟨m, e, pos, rounded, few, least⟩ := exists_round (e := 0) .negative positive (by decide)
    rw [rounded]
    exact unpack_pack_ne_zero few least zero
  next same => exact absurd (Int64.toInt_inj.mp (Int.compare_eq_eq.mp same)) h
  next above =>
    have positive : 0 < n.toInt.toNat := by
      have := Int.compare_eq_gt.mp above
      omega
    obtain ⟨m, e, pos, rounded, few, least⟩ := exists_round (e := 0) .positive positive (by decide)
    rw [rounded]
    exact unpack_pack_ne_zero few least zero

theorem floatOfInt64_beq_zero (n : Int64) : (floatOfInt64 n == 0.0) = decide (n = 0) := by
  change (floatOfInt64 n).toModel.unpack.beq (0.0 : Float).toModel.unpack = _
  have zero : (0.0 : Float).toModel.unpack = .zero .positive := rfl
  rw [zero]
  change ((floatOfInt64 n).toModel.unpack.compare (.zero .positive) == some .eq) = _
  by_cases h : n = 0
  · subst h
    rfl
  · rw [decide_eq_false h, beq_eq_false_iff_ne]
    exact compare_zero_ne (unpack_floatOfInt64_ne_zero h) .positive

end Script
