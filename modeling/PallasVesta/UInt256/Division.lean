import PallasVesta.Error
import PallasVesta.UInt256.Lemmas

namespace PallasVesta.UInt256

/-- Appends a bit to a remainder and reduces it once. The flag says that the divisor was taken. -/
@[inline] def remainderStep (divisor remainder : UInt256) (bit : Bool) : UInt256 × Bool :=
  let (shifted, carried) := remainder.shiftLeftOne bit
  if carried || divisor ≤ shifted then (shifted.wrappingSub divisor, true) else (shifted, false)

/-- Brings down the lowest `n` bits of `a`, highest first, onto a quotient and a remainder. -/
def divSteps (a divisor : UInt256) : Nat → UInt256 × UInt256 → UInt256 × UInt256
  | 0, state => state
  | n + 1, (quotient, remainder) =>
    let (remainder, taken) := remainderStep divisor remainder (a.bit n)
    divSteps a divisor n (if taken then quotient.setBit n else quotient, remainder)

def divMod (a divisor : UInt256) : Except ArithmeticError (UInt256 × UInt256) :=
  if divisor.isZero then .error .divisionByZero
  else .ok (divSteps a divisor a.bitLength (zero, zero))

def divLimb (a : UInt256) (divisor : Limb) : UInt256 × Limb :=
  let (quotient3, remainder) := Limb.divMod 0 a.limb3 divisor
  let (quotient2, remainder) := Limb.divMod remainder a.limb2 divisor
  let (quotient1, remainder) := Limb.divMod remainder a.limb1 divisor
  let (quotient0, remainder) := Limb.divMod remainder a.limb0 divisor
  (⟨quotient0, quotient1, quotient2, quotient3⟩, remainder)

/-- `a * factor + addend` modulo `size`, and the limb that left the top. -/
def mulAddLimb (a : UInt256) (factor addend : Limb) : UInt256 × Limb :=
  let (product0, carry) := Limb.mulAdd 0 a.limb0 factor addend
  let (product1, carry) := Limb.mulAdd 0 a.limb1 factor carry
  let (product2, carry) := Limb.mulAdd 0 a.limb2 factor carry
  let (product3, carry) := Limb.mulAdd 0 a.limb3 factor carry
  (⟨product0, product1, product2, product3⟩, carry)

theorem remainderStep_taken (divisor remainder : UInt256) (bit : Bool) :
    (remainderStep divisor remainder bit).2 =
      decide (divisor.toNat ≤ 2 * remainder.toNat + bit.toNat) := by
  have hexact := shiftLeftOne_exact remainder bit
  have hdivisor := toNat_lt divisor
  have hshifted := toNat_lt (remainder.shiftLeftOne bit).1
  rw [Bool.eq_iff_iff]
  simp only [remainderStep, decide_eq_true_eq]
  cases hcarry : (remainder.shiftLeftOne bit).2
  · simp only [hcarry, Bool.toNat_false, Nat.mul_zero, Nat.add_zero] at hexact
    rw [← hexact, ← le_iff_toNat_le]
    by_cases h : divisor ≤ (remainder.shiftLeftOne bit).1 <;> simp [h]
  · simp only [hcarry, Bool.toNat_true, Nat.mul_one] at hexact
    simp
    omega

theorem toNat_remainderStep {divisor remainder : UInt256} (h : remainder.toNat < divisor.toNat)
    (bit : Bool) :
    (remainderStep divisor remainder bit).1.toNat =
      (2 * remainder.toNat + bit.toNat) % divisor.toNat := by
  have htaken := remainderStep_taken divisor remainder bit
  have hexact := shiftLeftOne_exact remainder bit
  have hsub := subBorrow_exact (remainder.shiftLeftOne bit).1 divisor
  have hlt := toNat_lt ((remainder.shiftLeftOne bit).1.subBorrow divisor).1
  have hshifted := toNat_lt (remainder.shiftLeftOne bit).1
  have hbit : bit.toNat ≤ 1 := by cases bit <;> decide
  simp only [remainderStep] at htaken ⊢
  split at htaken
  · rename_i hc
    have hle : divisor.toNat ≤ 2 * remainder.toNat + bit.toNat := by simpa using htaken.symm
    have hmod : (2 * remainder.toNat + bit.toNat) % divisor.toNat =
        2 * remainder.toNat + bit.toNat - divisor.toNat := by
      rw [Nat.mod_eq_sub_mod hle, Nat.mod_eq_of_lt (by omega)]
    rw [if_pos hc, hmod]
    simp only [wrappingSub]
    cases hcarry : (remainder.shiftLeftOne bit).2 <;>
      cases hborrow : ((remainder.shiftLeftOne bit).1.subBorrow divisor).2 <;>
      simp [hcarry, hborrow] at hexact hsub <;> omega
  · rename_i hc
    have hgt : ¬divisor.toNat ≤ 2 * remainder.toNat + bit.toNat := by simpa using htaken.symm
    rw [if_neg hc, Nat.mod_eq_of_lt (by omega)]
    simp only [Bool.or_eq_true, not_or, Bool.not_eq_true] at hc
    simp [hc.1] at hexact
    omega

theorem divSteps_remainder_lt {a divisor : UInt256} (n : Nat) {state : UInt256 × UInt256}
    (h : state.2.toNat < divisor.toNat) :
    (divSteps a divisor n state).2.toNat < divisor.toNat := by
  induction n generalizing state with
  | zero => exact h
  | succ n ih =>
    have hstep : (remainderStep divisor state.2 (a.bit n)).1.toNat < divisor.toNat := by
      rw [toNat_remainderStep h]
      exact Nat.mod_lt _ (by omega)
    exact ih hstep

theorem divMod_remainder_lt {a divisor quotient remainder : UInt256}
    (h : a.divMod divisor = .ok (quotient, remainder)) : remainder.toNat < divisor.toNat := by
  simp only [divMod] at h
  split at h
  · simp at h
  · rename_i hzero
    have hpos : zero.toNat < divisor.toNat := by
      rw [isZero_iff] at hzero
      rw [toNat_zero]
      omega
    have hlt : (divSteps a divisor a.bitLength (zero, zero)).2.toNat < divisor.toNat :=
      divSteps_remainder_lt _ hpos
    rw [Except.ok.inj h] at hlt
    exact hlt

theorem divLimb_exact (a : UInt256) {divisor : Limb} (h : divisor ≠ 0) :
    (a.divLimb divisor).1.toNat * divisor.toNat + (a.divLimb divisor).2.toNat = a.toNat ∧
      (a.divLimb divisor).2.toNat < divisor.toNat := by
  have hpos := Limb.toNat_pos h
  have step (high low : Limb) (hhigh : high.toNat < divisor.toNat) :
      (Limb.divMod high low divisor).1.toNat * divisor.toNat +
          (Limb.divMod high low divisor).2.toNat = Limb.size * high.toNat + low.toNat ∧
        (Limb.divMod high low divisor).2.toNat < divisor.toNat := by
    obtain ⟨hquotient, hremainder⟩ := Limb.divMod_exact high low divisor hhigh
    rw [hquotient, hremainder, ← Limb.join_eq, Nat.mul_comm]
    exact ⟨Nat.div_add_mod _ _, Nat.mod_lt _ hpos⟩
  obtain ⟨h3, lt3⟩ := step 0 a.limb3 hpos
  obtain ⟨h2, lt2⟩ := step _ a.limb2 lt3
  obtain ⟨h1, lt1⟩ := step _ a.limb1 lt2
  obtain ⟨h0, lt0⟩ := step _ a.limb0 lt1
  refine ⟨?_, lt0⟩
  simp only [UInt64.toNat_zero, Nat.mul_zero, Nat.zero_add, Limb.size] at h0 h1 h2 h3
  simp only [divLimb, toNat, Nat.add_mul, Nat.mul_assoc, Limb.size]
  omega

theorem mulAddLimb_exact (a : UInt256) (factor addend : Limb) :
    (a.mulAddLimb factor addend).1.toNat + size * (a.mulAddLimb factor addend).2.toNat =
      a.toNat * factor.toNat + addend.toNat := by
  obtain ⟨a0, a1, a2, a3⟩ := a
  have h0 := Limb.mulAdd_exact 0 a0 factor addend
  have h1 := Limb.mulAdd_exact 0 a1 factor (Limb.mulAdd 0 a0 factor addend).2
  have h2 := Limb.mulAdd_exact 0 a2 factor
    (Limb.mulAdd 0 a1 factor (Limb.mulAdd 0 a0 factor addend).2).2
  have h3 := Limb.mulAdd_exact 0 a3 factor (Limb.mulAdd 0 a2 factor
    (Limb.mulAdd 0 a1 factor (Limb.mulAdd 0 a0 factor addend).2).2).2
  simp only [UInt64.toNat_zero, Nat.zero_add, Limb.size] at h0 h1 h2 h3
  simp only [mulAddLimb, toNat, Nat.add_mul, Nat.mul_assoc, Limb.size, size]
  omega

theorem divLimb_quotient_lt {a : UInt256} {divisor : Limb} (ha : a.isZero = false)
    (h : 1 < divisor.toNat) : (a.divLimb divisor).1.toNat < a.toNat := by
  have hzero : a.toNat ≠ 0 := by
    intro heq
    rw [← isZero_iff, ha] at heq
    exact absurd heq (by decide)
  have hne : divisor ≠ 0 := by
    rintro rfl
    exact absurd h (by decide)
  obtain ⟨hexact, -⟩ := divLimb_exact a hne
  have hle : (a.divLimb divisor).1.toNat * 2 ≤ (a.divLimb divisor).1.toNat * divisor.toNat :=
    Nat.mul_le_mul_left _ h
  omega

end PallasVesta.UInt256
