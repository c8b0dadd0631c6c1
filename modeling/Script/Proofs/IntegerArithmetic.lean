import Script.Proofs.Doubles
import Script.Standard.Arithmetic
import Script.Value.Operators

namespace Script

theorem natAbs_toInt_le (n : Int64) : n.toInt.natAbs ≤ 0x8000000000000000 := by
  have low := n.le_toInt
  have high := n.toInt_lt
  omega

theorem natAbs_of_int64?_eq_none {n : Int} (h : int64? n = none) :
    0x8000000000000000 ≤ n.natAbs := by
  have := int64?_eq_none_iff.mp h
  omega

theorem toInt_ne_zero {n : Int64} (h : n ≠ 0) : n.toInt ≠ 0 := fun hn => h (Int64.toInt_inj.mp hn)

namespace Value

variable {a b : Int64}

/-- Whether the exact quotient of two integers is an integer that 64 bits do not hold. -/
def QuotientOverflows (a b : Int64) : Prop :=
  b ≠ 0 ∧ ∃ q : Int, q * b.toInt = a.toInt ∧ int64? q = none

theorem natAbs_eq_one {q : Nat} (nonzero : b ≠ 0) (large : 0x8000000000000000 ≤ q)
    (h : q * b.toInt.natAbs ≤ a.toInt.natAbs) : b.toInt.natAbs = 1 := by
  have bound := natAbs_toInt_le a
  have divisor := toInt_ne_zero nonzero
  rcases Nat.lt_or_ge b.toInt.natAbs 2 with small | more
  · omega
  · have double : q * 2 ≤ q * b.toInt.natAbs := Nat.mul_le_mul_left q more
    omega

theorem eq_minValue_of_neg {q : Int} (h : -q = a.toInt) (large : int64? q = none) :
    a = Int64.minValue := by
  have low := a.le_toInt
  have high := a.toInt_lt
  have := int64?_eq_none_iff.mp large
  refine Int64.toInt_inj.mp ?_
  rw [Int64.toInt_minValue]
  omega

/-- The least integer, divided by minus one, has the only quotient that 64 bits do not hold. -/
theorem quotientOverflows_iff : QuotientOverflows a b ↔ a = Int64.minValue ∧ b = -1 := by
  constructor
  · rintro ⟨nonzero, q, product, large⟩
    have size : q.natAbs * b.toInt.natAbs = a.toInt.natAbs := by rw [← Int.natAbs_mul, product]
    have unit := natAbs_eq_one nonzero (natAbs_of_int64?_eq_none large) (Nat.le_of_eq size)
    rcases Int.natAbs_eq_iff.mp unit with one | minusOne
    · have one : b.toInt = 1 := one
      rw [one, Int.mul_one] at product
      rw [product, int64?_toInt] at large
      cases large
    · have minusOne : b.toInt = -1 := minusOne
      rw [minusOne, Int.mul_neg_one] at product
      exact ⟨eq_minValue_of_neg product large, Int64.toInt_inj.mp minusOne⟩
  · rintro ⟨rfl, rfl⟩
    exact ⟨by decide, 0x8000000000000000, by decide, by decide⟩

/-- A quotient cut toward zero leaves 64 bits only if it is exact. -/
theorem int64?_tdiv_eq_none_iff (nonzero : b ≠ 0) :
    int64? (a.toInt.tdiv b.toInt) = none ↔ QuotientOverflows a b := by
  constructor
  · intro large
    have below : (a.toInt.tdiv b.toInt).natAbs * b.toInt.natAbs ≤ a.toInt.natAbs := by
      rw [Int.natAbs_tdiv]
      exact Nat.div_mul_le_self _ _
    have unit := natAbs_eq_one nonzero (natAbs_of_int64?_eq_none large) below
    have divides : b.toInt ∣ a.toInt := Int.natAbs_dvd_natAbs.mp (unit ▸ Nat.one_dvd _)
    exact ⟨nonzero, _, Int.tdiv_mul_cancel divides, large⟩
  · rintro ⟨-, q, product, large⟩
    rw [← product, Int.mul_tdiv_cancel _ (toInt_ne_zero nonzero)]
    exact large

theorem divideFloats_int (nonzero : b ≠ 0) :
    divideFloats (int a) (int b) = .ok (float (floatOfInt64 a / floatOfInt64 b)) := by
  simp only [divideFloats, number?, floatOfInt64_beq_zero, nonzero, decide_false,
    Bool.false_eq_true, if_false]

theorem divide_zero : divide (int a) (int 0) = .error .divisionByZero := rfl

theorem remainder_zero : remainder (int a) (int 0) = .error .divisionByZero := rfl

theorem divide_of_product {q : Int64} (nonzero : b ≠ 0)
    (product : q.toInt * b.toInt = a.toInt) : divide (int a) (int b) = .ok (int q) := by
  have divisor := toInt_ne_zero nonzero
  have exact_quotient : a.toInt.tmod b.toInt = 0 :=
    Int.tmod_eq_zero_of_dvd ⟨q.toInt, by rw [Int.mul_comm, product]⟩
  have quotient : int64? (a.toInt.tdiv b.toInt) = some q := by
    rw [← product, Int.mul_tdiv_cancel _ divisor, int64?_toInt]
  simp only [divide, divisor, if_false, exact_quotient, if_true, quotient]

theorem divide_of_not_exact (nonzero : b ≠ 0) (h : ∀ q : Int64, q.toInt * b.toInt ≠ a.toInt) :
    divide (int a) (int b) = .ok (float (floatOfInt64 a / floatOfInt64 b)) := by
  have divisor := toInt_ne_zero nonzero
  simp only [divide, divisor, if_false, divideFloats_int nonzero]
  split
  next whole =>
    split
    next q quotient =>
      rw [int64?_eq_some_iff] at quotient
      exact absurd (by rw [quotient, Int.tdiv_mul_cancel_of_tmod_eq_zero whole]) (h q)
    next => rfl
  next => rfl

theorem remainder_of_overflow (overflows : QuotientOverflows a b) :
    remainder (int a) (int b) = .error (.overflow "%") := by
  have divisor := toInt_ne_zero overflows.1
  have large := (int64?_tdiv_eq_none_iff overflows.1).mpr overflows
  simp [remainder, divisor, large, BinaryOp.symbol]

theorem remainder_of_fits (nonzero : b ≠ 0) (fits : ¬QuotientOverflows a b) :
    ∃ r : Int64, remainder (int a) (int b) = .ok (int r) ∧ r.toInt = a.toInt.tmod b.toInt := by
  have divisor := toInt_ne_zero nonzero
  have small : (int64? (a.toInt.tdiv b.toInt)).isNone = false := by
    rw [Option.isNone_eq_false_iff, Option.isSome_iff_ne_none]
    exact fun large => fits ((int64?_tdiv_eq_none_iff nonzero).mp large)
  have bound : (a.toInt.tmod b.toInt).natAbs < b.toInt.natAbs := by
    rw [Int.natAbs_tmod]
    exact Nat.mod_lt _ (by omega)
  have divisor_bound := natAbs_toInt_le b
  refine ⟨Int64.ofInt (a.toInt.tmod b.toInt), ?_, Int64.toInt_ofInt_of_le (by omega) (by omega)⟩
  simp only [remainder, divisor, if_false, small, Bool.false_eq_true]

theorem divide_of_overflow (overflows : QuotientOverflows a b) :
    divide (int a) (int b) = .ok (float (floatOfInt64 a / floatOfInt64 b)) := by
  obtain ⟨nonzero, p, product, large⟩ := overflows
  refine divide_of_not_exact nonzero fun q hq => ?_
  have same : p = q.toInt :=
    Int.eq_of_mul_eq_mul_right (toInt_ne_zero nonzero) (product.trans hq.symm)
  rw [same, int64?_toInt] at large
  cases large

theorem exists_quotient (nonzero : b ≠ 0) (fits : ¬QuotientOverflows a b)
    (whole : a.toInt.tmod b.toInt = 0) : ∃ q : Int64, q.toInt * b.toInt = a.toInt := by
  cases quotient : int64? (a.toInt.tdiv b.toInt) with
  | none => exact absurd ((int64?_tdiv_eq_none_iff nonzero).mp quotient) fits
  | some q =>
    rw [int64?_eq_some_iff] at quotient
    exact ⟨q, by rw [quotient, Int.tdiv_mul_cancel_of_tmod_eq_zero whole]⟩

theorem remainder_bounds {r : Int64} (nonzero : b ≠ 0) (h : r.toInt = a.toInt.tmod b.toInt) :
    r.toInt.natAbs < b.toInt.natAbs ∧ (r = 0 ∨ r.toInt.sign = a.toInt.sign) ∧
      b.toInt ∣ a.toInt - r.toInt := by
  have divisor := toInt_ne_zero nonzero
  rw [h]
  refine ⟨?_, ?_, Int.dvd_self_sub_tmod⟩
  · rw [Int.natAbs_tmod]
    exact Nat.mod_lt _ (by omega)
  · by_cases divides : b.toInt ∣ a.toInt
    · left
      rw [Int.tmod_eq_zero_of_dvd divides] at h
      exact Int64.toInt_inj.mp h
    · right
      rw [Int.sign_tmod, if_neg divides]

theorem divide_of_fits {r : Int64} (nonzero : b ≠ 0) (fits : ¬QuotientOverflows a b)
    (h : r.toInt = a.toInt.tmod b.toInt) :
    (r = 0 → ∃ q : Int64, divide (int a) (int b) = .ok (int q) ∧ q.toInt * b.toInt = a.toInt) ∧
      (r ≠ 0 → divide (int a) (int b) = .ok (float (floatOfInt64 a / floatOfInt64 b))) := by
  constructor
  · rintro rfl
    obtain ⟨q, product⟩ := exists_quotient nonzero fits h.symm
    exact ⟨q, divide_of_product nonzero product, product⟩
  · intro left
    refine divide_of_not_exact nonzero fun q product => toInt_ne_zero left ?_
    rw [h, ← product, Int.mul_tmod_left]

/-- Division and remainder of two integers. A zero divisor is the same error for both. The least
integer and minus one, whose quotient does not fit, are an overflow for the remainder alone: there
division gives a double. All other remainders are integers below the divisor in size with the sign
of the dividend, and the quotient is an integer, exactly, if the remainder is zero, and a double
otherwise. -/
theorem integer_division (a b : Int64) :
    (b = 0 → binary .div (int a) (int b) = .error .divisionByZero ∧
      binary .mod (int a) (int b) = .error .divisionByZero) ∧
    (QuotientOverflows a b →
      binary .div (int a) (int b) = .ok (float (floatOfInt64 a / floatOfInt64 b)) ∧
      binary .mod (int a) (int b) = .error (.overflow "%")) ∧
    (b ≠ 0 → ¬QuotientOverflows a b → ∃ r : Int64, binary .mod (int a) (int b) = .ok (int r) ∧
      r.toInt.natAbs < b.toInt.natAbs ∧ (r = 0 ∨ r.toInt.sign = a.toInt.sign) ∧
      b.toInt ∣ a.toInt - r.toInt ∧
      (r = 0 → ∃ q : Int64, binary .div (int a) (int b) = .ok (int q) ∧
        q.toInt * b.toInt = a.toInt) ∧
      (r ≠ 0 → binary .div (int a) (int b) = .ok (float (floatOfInt64 a / floatOfInt64 b)))) ∧
    (QuotientOverflows a b ↔ a = Int64.minValue ∧ b = -1) ∧
    ((binary .div (int a) (int b)).isOk = (binary .mod (int a) (int b)).isOk ↔
      ¬QuotientOverflows a b) := by
  change (b = 0 → divide (int a) (int b) = _ ∧ remainder (int a) (int b) = _) ∧
    (_ → divide (int a) (int b) = _ ∧ remainder (int a) (int b) = _) ∧
    (_ → _ → ∃ r, remainder (int a) (int b) = _ ∧ _) ∧ _ ∧
    ((divide (int a) (int b)).isOk = (remainder (int a) (int b)).isOk ↔ _)
  refine ⟨?zero, fun overflows => ?overflow, fun nonzero fits => ?fits, quotientOverflows_iff,
    ?agree⟩
  case zero =>
    rintro rfl
    exact ⟨divide_zero, remainder_zero⟩
  case overflow => exact ⟨divide_of_overflow overflows, remainder_of_overflow overflows⟩
  case fits =>
    obtain ⟨r, rest, value⟩ := remainder_of_fits nonzero fits
    obtain ⟨below, sign, divides⟩ := remainder_bounds nonzero value
    exact ⟨r, rest, below, sign, divides, divide_of_fits nonzero fits value⟩
  case agree =>
    by_cases overflows : QuotientOverflows a b
    · simp [divide_of_overflow overflows, remainder_of_overflow overflows, overflows, Except.isOk,
        Except.toBool]
    · simp only [overflows, not_false_eq_true, iff_true]
      by_cases nonzero : b = 0
      · rw [nonzero, divide_zero, remainder_zero]
      · obtain ⟨r, rest, value⟩ := remainder_of_fits nonzero overflows
        have quotient := divide_of_fits nonzero overflows value
        by_cases left : r = 0
        · obtain ⟨q, exactly, -⟩ := quotient.1 left
          rw [exactly, rest]
          rfl
        · rw [quotient.2 left, rest]
          rfl

theorem integer_division_of_minus_seven :
    ¬QuotientOverflows (-7) 2 ∧
    binary .mod (int (-7)) (int 2) = .ok (int (-1)) ∧
    binary .div (int (-7)) (int 2) = .ok (float (floatOfInt64 (-7) / floatOfInt64 2)) := by
  have fits : ¬QuotientOverflows (-7) 2 := by
    rw [quotientOverflows_iff]
    decide
  obtain ⟨r, rest, -, -, -, -, quotient⟩ := (integer_division (-7) 2).2.2.1 (by decide) fits
  have left : r = -1 := by
    have evaluated : binary .mod (int (-7)) (int 2) = .ok (int (-1)) := rfl
    rw [evaluated] at rest
    cases rest
    rfl
  exact ⟨fits, left ▸ rest, quotient (by rw [left]; decide)⟩

/-- Where the remainder overflows, division gives a double. -/
theorem least_quotient_is_double :
    binary .div (int Int64.minValue) (int (-1)) =
      .ok (float (floatOfInt64 Int64.minValue / floatOfInt64 (-1))) ∧
    binary .mod (int Int64.minValue) (int (-1)) = .error (.overflow "%") ∧
    ¬∀ a b, (binary .div (int a) (int b)).isOk = (binary .mod (int a) (int b)).isOk := by
  have overflows : QuotientOverflows Int64.minValue (-1) := quotientOverflows_iff.mpr ⟨rfl, rfl⟩
  have quotient : binary .div (int Int64.minValue) (int (-1)) = _ := divide_of_overflow overflows
  have rest : binary .mod (int Int64.minValue) (int (-1)) = _ := remainder_of_overflow overflows
  refine ⟨quotient, rest, fun agree => ?_⟩
  have := agree Int64.minValue (-1)
  rw [quotient, rest] at this
  cases this

end Value

namespace Standard

theorem natAbs_pow (base : Int) (exponent : Nat) :
    (base.pow exponent).natAbs = base.natAbs.pow exponent := Int.natAbs_pow base exponent

theorem int64?_pow_of_large {base : Int} {exponent : Nat} (large : 2 ≤ base.natAbs)
    (many : 64 ≤ exponent) : int64? (base.pow exponent) = none := by
  have size : 0x10000000000000000 ≤ (base.pow exponent).natAbs := by
    rw [natAbs_pow]
    calc 0x10000000000000000 = Nat.pow 2 64 := rfl
      _ ≤ Nat.pow 2 exponent := Nat.pow_le_pow_right (by decide) many
      _ ≤ base.natAbs.pow exponent := Nat.pow_le_pow_left large exponent
  rw [int64?_eq_none_iff]
  omega

theorem int_pow_succ (base : Int) (exponent : Nat) :
    base.pow (exponent + 1) = base.pow exponent * base := Int.pow_succ base exponent

theorem pow_add_three {base : Int} (small : base.natAbs ≤ 1) (exponent : Nat) :
    base.pow (exponent + 3) = base.pow (exponent + 1) := by
  have cube : base * base * base = base := by
    have : base = -1 ∨ base = 0 ∨ base = 1 := by omega
    obtain rfl | rfl | rfl := this <;> rfl
  calc base.pow (exponent + 3) = base.pow exponent * base * base * base := by
        rw [int_pow_succ, int_pow_succ, int_pow_succ]
    _ = base.pow exponent * (base * base * base) := by simp only [Int.mul_assoc]
    _ = base.pow (exponent + 1) := by rw [cube, int_pow_succ]

theorem pow_parity {base : Int} (small : base.natAbs ≤ 1) (exponent : Nat) :
    base.pow (exponent + 1) = base.pow (2 - (exponent + 1) % 2) ∧
      base.pow (exponent + 2) = base.pow (2 - (exponent + 2) % 2) := by
  induction exponent with
  | zero => exact ⟨rfl, rfl⟩
  | succ exponent ih =>
    refine ⟨ih.2, ?_⟩
    rw [Nat.add_mod_right, ← ih.1]
    exact pow_add_three small exponent

theorem exactPower?_eq (base : Int) (exponent : Nat) :
    exactPower? base exponent =
      if exponent < 0x100000000 then int64? (base.pow exponent) else none := by
  unfold exactPower?
  rcases Nat.lt_or_ge exponent 0x100000000 with narrow | wide
  · rw [if_neg (Nat.not_le.mpr narrow), if_pos narrow]
    split
    next small =>
      cases exponent with
      | zero => rfl
      | succ exponent => rw [if_neg (Nat.succ_ne_zero _), (pow_parity small exponent).1]
    next large =>
      split
      next many => rw [int64?_pow_of_large (Nat.lt_of_not_le large) many]
      next => rfl
  · rw [if_pos wide, if_neg (Nat.not_lt.mpr wide)]

theorem exists_int64_pow {base : Int} (small : base.natAbs ≤ 1) (exponent : Nat) :
    ∃ n : Int64, n.toInt = base.pow exponent := by
  have size : (base.pow exponent).natAbs ≤ 1 := by
    rw [natAbs_pow]
    exact Nat.le_trans (Nat.pow_le_pow_left small exponent) (Nat.le_of_eq (Nat.one_pow exponent))
  exact ⟨Int64.ofInt (base.pow exponent), Int64.toInt_ofInt_of_le (by omega) (by omega)⟩

theorem pow_eq_of_neg {base exponent : Int64} (h : exponent < 0) :
    pow [.int base, .int exponent] =
      HostAction.ok (.float (floatOfInt64 base ^ floatOfInt64 exponent)) := by
  simp only [pow, pow.integerPower?, HostAction.binary_pair, h, if_true, expectNumber,
    Value.number?]

theorem pow_eq_of_some {base exponent n : Int64} (natural : 0 ≤ exponent)
    (h : exactPower? base.toInt exponent.toInt.toNat = some n) :
    pow [.int base, .int exponent] = HostAction.ok (.int n) := by
  simp only [pow, pow.integerPower?, HostAction.binary_pair, Int64.not_lt.mpr natural, if_false, h]

theorem pow_eq_of_none {base exponent : Int64} (natural : 0 ≤ exponent)
    (h : exactPower? base.toInt exponent.toInt.toNat = none) :
    pow [.int base, .int exponent] =
      HostAction.ok (.float (floatOfInt64 base ^ floatOfInt64 exponent)) := by
  simp only [pow, pow.integerPower?, HostAction.binary_pair, Int64.not_lt.mpr natural, if_false, h,
    expectNumber, Value.number?]

/-- An integer power that fits is an integer if the exponent is below `2 ^ 32`. All other powers are
doubles: those with a negative exponent, those that 64 bits do not hold, and those with a larger
exponent, although there the powers of minus one, zero and one fit, and no others. -/
theorem integer_powers (base exponent : Int64) :
    (∀ n : Int64, 0 ≤ exponent → exponent < 0x100000000 →
      n.toInt = base.toInt.pow exponent.toInt.toNat →
      pow [.int base, .int exponent] = HostAction.ok (.int n)) ∧
    (0 ≤ exponent → (∀ n : Int64, n.toInt ≠ base.toInt.pow exponent.toInt.toNat) →
      pow [.int base, .int exponent] =
        HostAction.ok (.float (floatOfInt64 base ^ floatOfInt64 exponent))) ∧
    (exponent < 0 ∨ 0x100000000 ≤ exponent → pow [.int base, .int exponent] =
      HostAction.ok (.float (floatOfInt64 base ^ floatOfInt64 exponent))) ∧
    (0x100000000 ≤ exponent →
      ((∃ n : Int64, n.toInt = base.toInt.pow exponent.toInt.toNat) ↔
        base.toInt.natAbs ≤ 1)) := by
  have limit : (0x100000000 : Int64).toInt = 0x100000000 := rfl
  have zero : (0 : Int64).toInt = 0 := rfl
  refine ⟨fun n natural narrow fits => ?fits, fun natural large => ?large, ?outside,
    fun wide => ⟨?small, fun small => exists_int64_pow small _⟩⟩
  case fits =>
    rw [Int64.lt_iff_toInt_lt, limit] at narrow
    refine pow_eq_of_some natural ?_
    rw [exactPower?_eq, if_pos (by omega), ← fits, int64?_toInt]
  case large =>
    refine pow_eq_of_none natural ?_
    rw [exactPower?_eq]
    split
    next =>
      exact Option.eq_none_iff_forall_ne_some.mpr fun n hn => large n (int64?_eq_some_iff.mp hn)
    next => rfl
  case outside =>
    rintro (negative | wide)
    · exact pow_eq_of_neg negative
    rw [Int64.le_iff_toInt_le, limit] at wide
    refine pow_eq_of_none (Int64.le_iff_toInt_le.mpr (by omega)) ?_
    rw [exactPower?_eq, if_neg (by omega)]
  case small =>
    rintro ⟨n, fits⟩
    rw [Int64.le_iff_toInt_le, limit] at wide
    rcases Nat.lt_or_ge base.toInt.natAbs 2 with small | large
    · omega
    · rw [← int64?_eq_some_iff, int64?_pow_of_large large (by omega)] at fits
      cases fits

theorem integer_powers_of_three :
    0 ≤ (4 : Int64) ∧ (81 : Int64).toInt = (3 : Int64).toInt.pow 4 ∧
    pow [.int 3, .int 4] = HostAction.ok (.int 81) :=
  ⟨by decide, by decide, (integer_powers 3 4).1 81 (by decide) (by decide) (by decide)⟩

/-- A power of one that is a double. -/
theorem wide_power_is_double :
    (1 : Int64).toInt = (1 : Int64).toInt.pow (4294967296 : Int64).toInt.toNat ∧
    pow [.int 1, .int 4294967296] =
      HostAction.ok (.float (floatOfInt64 1 ^ floatOfInt64 4294967296)) ∧
    ¬∀ base exponent n : Int64, 0 ≤ exponent →
      n.toInt = base.toInt.pow exponent.toInt.toNat →
      pow [.int base, .int exponent] = HostAction.ok (.int n) := by
  have power : (1 : Int64).toInt = (1 : Int64).toInt.pow (4294967296 : Int64).toInt.toNat :=
    Int.one_pow.symm
  have double : pow [.int 1, .int 4294967296] =
      HostAction.ok (.float (floatOfInt64 1 ^ floatOfInt64 4294967296)) := by
    refine pow_eq_of_none (by decide) ?_
    rw [exactPower?_eq, if_neg (by decide)]
  refine ⟨power, double, fun claim => ?_⟩
  have whole := claim 1 4294967296 1 (by decide) power
  rw [double] at whole
  cases whole

end Standard

end Script
