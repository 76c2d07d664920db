import PallasVesta.Proofs.BinaryDigits

namespace PallasVesta

/-- Bringing down digit `n` of `a` onto the remainder `r` takes the divisor `d` out of the number
still to be divided `2 ^ n` times or not at all, and leaves `r'` as the remainder. -/
theorem bring_down {a d r r' n : Nat} {taken : Bool}
    (h : d * taken.toNat + r' = 2 * r + (a.testBit n).toNat) :
    2 ^ (n + 1) * r + a % 2 ^ (n + 1) = d * (2 ^ n * taken.toNat) + (2 ^ n * r' + a % 2 ^ n) := by
  rw [mod_two_pow_succ]
  calc 2 ^ (n + 1) * r + (a % 2 ^ n + 2 ^ n * (a.testBit n).toNat)
      = 2 ^ n * (2 * r + (a.testBit n).toNat) + a % 2 ^ n := by ring
    _ = 2 ^ n * (d * taken.toNat + r') + a % 2 ^ n := by rw [h]
    _ = d * (2 ^ n * taken.toNat) + (2 ^ n * r' + a % 2 ^ n) := by ring

namespace UInt256

theorem remainderStep_exact {divisor remainder : UInt256} (h : remainder.toNat < divisor.toNat)
    (bit : Bool) :
    divisor.toNat * (remainderStep divisor remainder bit).2.toNat +
        (remainderStep divisor remainder bit).1.toNat = 2 * remainder.toNat + bit.toNat := by
  rw [toNat_remainderStep h, remainderStep_taken]
  have hbit := bit.toNat_le
  by_cases hle : divisor.toNat ≤ 2 * remainder.toNat + bit.toNat
  · rw [decide_eq_true hle, Bool.toNat_true, Nat.mod_eq_sub_mod hle, Nat.mod_eq_of_lt (by omega)]
    omega
  · rw [decide_eq_false hle, Bool.toNat_false, Nat.mod_eq_of_lt (by omega)]
    omega

theorem remainderStep_lt {divisor remainder : UInt256} (h : remainder.toNat < divisor.toNat)
    (bit : Bool) : (remainderStep divisor remainder bit).1.toNat < divisor.toNat := by
  rw [toNat_remainderStep h]
  exact Nat.mod_lt _ (by omega)

/-- The invariant of long division: the digits of the quotient from `n` on are final, those below
are still zero. -/
theorem divSteps_exact (a divisor : UInt256) {n : Nat} (hn : n ≤ 256) (quotient remainder : UInt256)
    (hquotient : 2 ^ n ∣ quotient.toNat) (hremainder : remainder.toNat < divisor.toNat) :
    (divSteps a divisor n (quotient, remainder)).1.toNat =
        quotient.toNat + (2 ^ n * remainder.toNat + a.toNat % 2 ^ n) / divisor.toNat ∧
      (divSteps a divisor n (quotient, remainder)).2.toNat =
        (2 ^ n * remainder.toNat + a.toNat % 2 ^ n) % divisor.toNat := by
  induction n generalizing quotient remainder with
  | zero =>
      simp only [divSteps, Nat.pow_zero, Nat.one_mul, Nat.mod_one, Nat.add_zero,
        Nat.div_eq_of_lt hremainder, Nat.mod_eq_of_lt hremainder, and_self]
  | succ n ih =>
      have hpos : 0 < divisor.toNat := by omega
      have hexact := remainderStep_exact hremainder (a.bit n)
      have hlt := remainderStep_lt hremainder (a.bit n)
      rw [divSteps]
      generalize remainderStep divisor remainder (a.bit n) = step at hexact hlt ⊢
      obtain ⟨next, taken⟩ := step
      rw [bit_eq_testBit] at hexact
      rw [bring_down hexact, Nat.mul_add_div hpos, Nat.mul_add_mod]
      have hdigit : (if taken = true then quotient.setBit n else quotient).toNat =
          quotient.toNat + 2 ^ n * taken.toNat := by
        cases taken with
        | false => simp
        | true =>
            have hclear : quotient.toNat.testBit n = false := by
              obtain ⟨k, hk⟩ := hquotient
              rw [hk, Nat.testBit_two_pow_mul]
              simp
            simp [toNat_setBit quotient (by omega) hclear]
      have hdvd : 2 ^ n ∣ (if taken = true then quotient.setBit n else quotient).toNat := by
        rw [hdigit]
        exact Nat.dvd_add (Nat.dvd_trans (Nat.pow_dvd_pow 2 n.le_succ) hquotient)
          (Nat.dvd_mul_right _ _)
      obtain ⟨hq, hr⟩ := ih (by omega) _ _ hdvd hlt
      refine ⟨?_, hr⟩
      rw [hq, hdigit, Nat.add_assoc]

theorem divMod_zero {a divisor : UInt256} (h : divisor.toNat = 0) :
    a.divMod divisor = .error .divisionByZero := by
  rw [divMod, if_pos ((isZero_iff divisor).2 h)]

theorem exists_divMod (a : UInt256) {divisor : UInt256} (h : divisor.toNat ≠ 0) :
    ∃ quotient remainder, a.divMod divisor = .ok (quotient, remainder) ∧
      quotient.toNat = a.toNat / divisor.toNat ∧ remainder.toNat = a.toNat % divisor.toNat := by
  have hwidth : a.bitLength ≤ 256 := by
    rw [bitLength_eq_size, Nat.size_le]
    exact a.toNat_lt_two_pow
  have hsteps := divSteps_exact a divisor hwidth zero zero (Nat.dvd_zero _)
    (Nat.pos_of_ne_zero h)
  rw [toNat_zero, Nat.mul_zero, Nat.zero_add, Nat.zero_add, bitLength_eq_size,
    Nat.mod_eq_of_lt (Nat.lt_size_self _)] at hsteps
  rw [divMod, if_neg (by rwa [isZero_iff]), bitLength_eq_size]
  exact ⟨_, _, rfl, hsteps⟩

/-- Only a zero divisor is refused. With any other, up to the full width, the quotient and the
remainder recombine to the dividend, and the remainder lies below the divisor. -/
theorem divMod_is_euclidean (a divisor : UInt256) :
    (a.divMod divisor = .error .divisionByZero ↔ divisor = zero) ∧
    (divisor ≠ zero → ∃ quotient remainder, a.divMod divisor = .ok (quotient, remainder) ∧
      a.toNat = quotient.toNat * divisor.toNat + remainder.toNat ∧
      remainder.toNat < divisor.toNat) := by
  by_cases hzero : divisor = zero
  · subst hzero
    simp [divMod_zero toNat_zero]
  · have hpos : 0 < divisor.toNat := by
      rw [← toNat_inj, toNat_zero] at hzero
      exact Nat.pos_of_ne_zero hzero
    obtain ⟨quotient, remainder, hok, hquotient, hremainder⟩ := exists_divMod a hpos.ne'
    constructor
    · simp [hok, hzero]
    · intro _
      refine ⟨quotient, remainder, hok, ?_, ?_⟩
      · rw [hquotient, hremainder, Nat.div_add_mod']
      · rw [hremainder]
        exact Nat.mod_lt _ hpos

theorem divMod_at_wide_divisor :
    (⟨1, 0, 0, 0x8000000000000000⟩ : UInt256) ≠ zero ∧
      ∃ quotient remainder,
        (⟨-1, -1, -1, -1⟩ : UInt256).divMod ⟨1, 0, 0, 0x8000000000000000⟩ =
          .ok (quotient, remainder) ∧
        quotient.toNat = 1 ∧ remainder.toNat = 2 ^ 255 - 2 := by
  have hdivisor : (⟨1, 0, 0, 0x8000000000000000⟩ : UInt256) ≠ zero := by decide
  have hwidth : (⟨1, 0, 0, 0x8000000000000000⟩ : UInt256).toNat = 2 ^ 255 + 1 := by decide
  have hlargest : (⟨-1, -1, -1, -1⟩ : UInt256).toNat = 2 ^ 256 - 1 := by decide
  obtain ⟨quotient, remainder, hok, hvalue, hlt⟩ := (divMod_is_euclidean _ _).2 hdivisor
  rw [hlargest, hwidth] at hvalue
  rw [hwidth] at hlt
  exact ⟨hdivisor, quotient, remainder, hok, by omega, by omega⟩

end UInt256

namespace UInt512

theorem toNat_reduceSteps {a : UInt512} {modulus : UInt256} (n : Nat) {remainder : UInt256}
    (h : remainder.toNat < modulus.toNat) :
    (reduceSteps a modulus n remainder).toNat =
      (2 ^ n * remainder.toNat + a.toNat % 2 ^ n) % modulus.toNat := by
  induction n generalizing remainder with
  | zero =>
      simp only [reduceSteps, Nat.pow_zero, Nat.one_mul, Nat.mod_one, Nat.add_zero,
        Nat.mod_eq_of_lt h]
  | succ n ih =>
      have hexact := UInt256.remainderStep_exact h (a.bit n)
      rw [bit_eq_testBit] at hexact
      rw [reduceSteps, ih (UInt256.remainderStep_lt h _), bit_eq_testBit, bring_down hexact,
        Nat.mul_add_mod]

theorem toNat_reduce (a : UInt512) {modulus : UInt256} (h : modulus.toNat ≠ 0) :
    (a.reduce modulus).toNat = a.toNat % modulus.toNat := by
  rw [reduce, toNat_reduceSteps _ (by rw [UInt256.toNat_zero]; omega), UInt256.toNat_zero,
    Nat.mul_zero, Nat.zero_add, bitLength_eq_size, Nat.mod_eq_of_lt (Nat.lt_size_self _)]

end UInt512

end PallasVesta
