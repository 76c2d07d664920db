import Mathlib.FieldTheory.Finite.Basic
import PallasVesta.Field.Power
import PallasVesta.Proofs.FieldRing
import PallasVesta.Proofs.Primality
import PallasVesta.Proofs.ResidueRing

namespace PallasVesta

theorem FieldParams.toNat_groupOrder (M : FieldParams) (hM : 1 ≤ M.modulus.toNat) :
    M.groupOrder.toNat = M.modulus.toNat - 1 := by
  rw [groupOrder, UInt256.toNat_wrappingSub (by rwa [UInt256.toNat_one]), UInt256.toNat_one]

namespace FieldElement

variable {M : FieldParams} [NeZero M.modulus.toNat]

theorem toZMod_squareTimes (a : FieldElement M) (n : Nat) :
    (a.squareTimes n).toZMod = a.toZMod ^ 2 ^ n := by
  induction n generalizing a with
  | zero => rw [squareTimes, pow_zero, pow_one]
  | succ n ih => rw [squareTimes, ih, toZMod_square, ← pow_mul, ← pow_succ']

theorem isCanonical_squareTimes {a : FieldElement M} (ha : a.IsCanonical) (n : Nat) :
    (a.squareTimes n).IsCanonical := by
  induction n generalizing a with
  | zero => exact ha
  | succ n ih => exact ih a.isCanonical_square

/-- The invariant of square-and-multiply: the product so far times the power still to come. -/
theorem toZMod_foldl_powStep (bits : List Bool) (state : FieldElement M × FieldElement M) :
    (bits.foldl powStep state).1.toZMod = state.1.toZMod * state.2.toZMod ^ binaryValue bits := by
  induction bits generalizing state with
  | nil => rw [List.foldl_nil, binaryValue, pow_zero, mul_one]
  | cons bit bits ih =>
      rw [List.foldl_cons, ih, binaryValue]
      cases bit with
      | false =>
          rw [powStep, if_neg Bool.false_ne_true, toZMod_square, ← pow_mul, Bool.toNat_false,
            Nat.zero_add]
      | true =>
          rw [powStep, if_pos rfl, toZMod_mul, toZMod_square, ← pow_mul, mul_assoc, ← pow_succ',
            Bool.toNat_true, Nat.add_comm 1]

theorem toZMod_powBits (a : FieldElement M) (bits : List Bool) :
    (a.powBits bits).toZMod = a.toZMod ^ binaryValue bits := by
  rw [powBits, toZMod_foldl_powStep, toZMod_one, one_mul]

theorem isCanonical_foldl_powStep (bits : List Bool) {state : FieldElement M × FieldElement M}
    (h : state.1.IsCanonical) : (bits.foldl powStep state).1.IsCanonical := by
  induction bits generalizing state with
  | nil => exact h
  | cons bit bits ih =>
      apply ih
      cases bit with
      | false => exact h
      | true => exact isCanonical_mul _ _

theorem isCanonical_pow (hM : 1 < M.modulus.toNat) (a : FieldElement M) (exponent : UInt256) :
    (a.pow exponent).IsCanonical :=
  isCanonical_foldl_powStep _ (isCanonical_one hM)

theorem toZMod_pow (hM : 1 < M.modulus.toNat) (a : FieldElement M) (exponent : UInt256) :
    (a.pow exponent).toZMod = a.toZMod ^ (exponent.toNat % (M.modulus.toNat - 1)) := by
  have horder := M.toNat_groupOrder (Nat.le_of_lt hM)
  rw [pow, toZMod_powBits, UInt256.binaryValue_bits, Signed.toNat_residue_ofUInt256 _ (by omega),
    horder]

end FieldElement

theorem pow_mod_sub_one {p : Nat} [Fact p.Prime] {x : ZMod p} (hx : x ≠ 0) (n : Nat) :
    x ^ (n % (p - 1)) = x ^ n :=
  (pow_eq_pow_mod n (ZMod.pow_card_sub_one_eq_one hx)).symm

namespace FieldElement

variable {M : FieldParams}

theorem IsCanonical.toNat_eq_mod {a : FieldElement M} (ha : a.IsCanonical) {n : Nat}
    (h : a.toZMod = n) : a.value.toNat = n % M.modulus.toNat := by
  rw [toZMod, ZMod.natCast_eq_natCast_iff, Nat.ModEq, Nat.mod_eq_of_lt ha] at h
  exact h

theorem toNat_pow (hM : 2 ≤ M.modulus.toNat) (a : FieldElement M) (exponent : UInt256) :
    (a.pow exponent).value.toNat =
      a.value.toNat ^ (exponent.toNat % (M.modulus.toNat - 1)) % M.modulus.toNat := by
  have : NeZero M.modulus.toNat := ⟨by omega⟩
  apply (isCanonical_pow hM a exponent).toNat_eq_mod
  rw [toZMod_pow hM, Nat.cast_pow, toZMod]

theorem zero_pow_of_dvd (hM : 2 ≤ M.modulus.toNat) {exponent : UInt256}
    (h : M.modulus.toNat - 1 ∣ exponent.toNat) : (0 : FieldElement M).pow exponent = 1 := by
  apply ext_value
  rw [toNat_pow hM, Nat.mod_eq_zero_of_dvd h, pow_zero, Nat.mod_eq_of_lt hM]
  rfl

theorem zero_pow_of_not_dvd (hM : 2 ≤ M.modulus.toNat) {exponent : UInt256}
    (h : ¬M.modulus.toNat - 1 ∣ exponent.toNat) : (0 : FieldElement M).pow exponent = 0 := by
  have hvalue : (0 : FieldElement M).value.toNat = 0 := UInt256.toNat_zero
  apply ext_value
  rw [Nat.dvd_iff_mod_eq_zero] at h
  rw [toNat_pow hM, hvalue, zero_pow h, Nat.zero_mod]

section

variable [hprime : Fact M.modulus.toNat.Prime] {a : FieldElement M}

theorem toZMod_pow_of_ne_zero (ha : a.toZMod ≠ 0) (exponent : UInt256) :
    (a.pow exponent).toZMod = a.toZMod ^ exponent.toNat := by
  rw [toZMod_pow hprime.out.one_lt, pow_mod_sub_one ha]

theorem toNat_pow_of_ne_zero (ha : a.toZMod ≠ 0) (exponent : UInt256) :
    (a.pow exponent).value.toNat = a.value.toNat ^ exponent.toNat % M.modulus.toNat := by
  apply (isCanonical_pow hprime.out.one_lt a exponent).toNat_eq_mod
  rw [toZMod_pow_of_ne_zero ha, Nat.cast_pow, toZMod]

theorem squareTimes_eq_pow (ha : a.IsCanonical) (hne : a.toZMod ≠ 0) {k : Nat} (hk : k < 256) :
    a.squareTimes k = a.pow (.ofNat (2 ^ k)) := by
  have hsize : 2 ^ k < UInt256.size := Nat.pow_lt_pow_right Nat.one_lt_two hk
  rw [← (isCanonical_squareTimes ha k).toZMod_inj (isCanonical_pow hprime.out.one_lt a _),
    toZMod_squareTimes, toZMod_pow_of_ne_zero hne, UInt256.toNat_ofNat hsize]

end

/-- A power is that of the integers with the exponent reduced modulo one less than the modulus.
Modulo a prime the reduction shows only at zero, and repeated squaring is a power too. -/
theorem pow_reduces_exponent :
    (∀ M : FieldParams, 2 ≤ M.modulus.toNat → ∀ (a : FieldElement M) (exponent : UInt256),
      (a.pow exponent).value.toNat =
        a.value.toNat ^ (exponent.toNat % (M.modulus.toNat - 1)) % M.modulus.toNat) ∧
    ∀ M : FieldParams, M.modulus.toNat.Prime →
      (∀ a : FieldElement M, a.IsCanonical → a ≠ 0 → ∀ exponent : UInt256,
        (a.pow exponent).value.toNat = a.value.toNat ^ exponent.toNat % M.modulus.toNat) ∧
      (∀ exponent : UInt256,
        ((0 : FieldElement M).pow exponent = 1 ↔ M.modulus.toNat - 1 ∣ exponent.toNat) ∧
        ((0 : FieldElement M).pow exponent = 0 ↔ ¬M.modulus.toNat - 1 ∣ exponent.toNat)) ∧
      ∀ a : FieldElement M, a.IsCanonical → a ≠ 0 → ∀ k < 256,
        a.squareTimes k = a.pow (.ofNat (2 ^ k)) := by
  refine ⟨fun M => toNat_pow, fun M hprime => ?_⟩
  have : Fact M.modulus.toNat.Prime := ⟨hprime⟩
  refine ⟨?_, ?_, ?_⟩
  · intro a ha hne exponent
    rw [ne_eq, ← ha.toZMod_eq_zero_iff] at hne
    exact toNat_pow_of_ne_zero hne exponent
  · intro exponent
    by_cases hdvd : M.modulus.toNat - 1 ∣ exponent.toNat
    · simp [zero_pow_of_dvd hprime.two_le hdvd, hdvd, FieldElement.zero_ne_one.symm]
    · simp [zero_pow_of_not_dvd hprime.two_le hdvd, hdvd, FieldElement.zero_ne_one]
  · intro a ha hne k hk
    rw [ne_eq, ← ha.toZMod_eq_zero_iff] at hne
    exact squareTimes_eq_pow ha hne hk

theorem pow_of_three_and_zero :
    2 ≤ FieldParams.largest.modulus.toNat ∧ FieldParams.fp.modulus.toNat.Prime ∧
      (⟨.ofLimb 3⟩ : Fp).IsCanonical ∧ (⟨.ofLimb 3⟩ : Fp) ≠ 0 ∧
      ((⟨.ofLimb 3⟩ : FieldElement .largest).pow FieldParams.largest.groupOrder).value.toNat = 1 ∧
      ((⟨.ofLimb 3⟩ : Fp).pow (.ofLimb 5)).value.toNat = 243 ∧
      (0 : Fp).pow FieldParams.fp.groupOrder = 1 ∧
      (⟨.ofLimb 3⟩ : Fp).squareTimes 255 = (⟨.ofLimb 3⟩ : Fp).pow (.ofNat (2 ^ 255)) :=
  have hlargest : 2 ≤ FieldParams.largest.modulus.toNat := by decide
  have hthree : (⟨.ofLimb 3⟩ : Fp).IsCanonical := by
    rw [IsCanonical]
    decide
  have hne : (⟨.ofLimb 3⟩ : Fp) ≠ 0 := by decide
  have hprime := pow_reduces_exponent.2 .fp FieldParams.prime_fp
  ⟨hlargest, FieldParams.prime_fp, hthree, hne,
    (pow_reduces_exponent.1 .largest hlargest _ _).trans (by decide),
    (hprime.1 _ hthree hne _).trans (by decide), (hprime.2.1 _).1.2 (by decide),
    hprime.2.2 _ hthree hne 255 (by decide)⟩

end FieldElement

end PallasVesta
