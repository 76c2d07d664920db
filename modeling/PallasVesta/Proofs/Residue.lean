import Mathlib.Data.Int.ModEq
import PallasVesta.Proofs.Product
import PallasVesta.UInt512

namespace PallasVesta.Signed

theorem toInt_ofUInt512 (a : UInt512) : (ofUInt512 a).toInt = a.toNat := rfl

theorem toNat_ofUInt256 (a : UInt256) : (UInt512.ofUInt256 a).toNat = a.toNat := by
  rw [UInt512.ofUInt256, UInt512.toNat, UInt256.toNat_zero, Nat.mul_zero, Nat.add_zero]

theorem toInt_ofUInt256 (a : UInt256) : (ofUInt256 a).toInt = a.toNat := by
  rw [ofUInt256, toInt_ofUInt512, toNat_ofUInt256]

theorem toInt_difference (a b : UInt256) : (difference a b).toInt = a.toNat - b.toNat := by
  by_cases h : b ≤ a
  · have hle := UInt256.le_iff_toNat_le.1 h
    rw [difference, if_pos h, toInt, if_neg (by simp), toNat_ofUInt256,
      UInt256.toNat_wrappingSub hle]
    omega
  · have hle : a.toNat ≤ b.toNat := by
      rw [UInt256.le_iff_toNat_le] at h
      omega
    rw [difference, if_neg h, toInt, if_pos rfl, toNat_ofUInt256, UInt256.toNat_wrappingSub hle]
    omega

theorem natAbs_toInt (a : Signed) : a.toInt.natAbs = a.magnitude.toNat := by
  rw [toInt]
  split <;> simp

theorem isNegative_iff (a : Signed) : a.isNegative = true ↔ a.toInt < 0 := by
  have hzero := a.magnitude.isZero_iff
  rw [isNegative, toInt]
  cases a.negative <;> cases h : a.magnitude.isZero <;> simp [h] at hzero ⊢ <;> omega

theorem neg_emod_of_mod_ne_zero {n m : Nat} (hm : m ≠ 0) (h : n % m ≠ 0) :
    (-n : Int) % m = (m - n % m : Nat) := by
  have hlt := Nat.mod_lt n (Nat.pos_of_ne_zero hm)
  have hsub : ((m - n % m : Nat) : Int) = m - n % m := by
    rw [Nat.cast_sub (Nat.le_of_lt hlt), Int.natCast_emod]
  rw [Int.neg_emod_eq_sub_emod, ← Int.sub_emod_emod, ← hsub, ← Int.natCast_emod,
    Nat.mod_eq_of_lt (by omega)]

theorem toNat_residue (a : Signed) {modulus : UInt256} (h : modulus.toNat ≠ 0) :
    ((a.residue modulus).toNat : Int) = a.toInt % modulus.toNat := by
  have hreduce := a.magnitude.toNat_reduce h
  have hlt := Nat.mod_lt a.magnitude.toNat (Nat.pos_of_ne_zero h)
  have hmagnitude := a.natAbs_toInt
  rw [residue]
  by_cases hzero : a.magnitude.toNat % modulus.toNat = 0
  · -- A multiple of the modulus has residue zero whatever its sign.
    have hisZero : (a.magnitude.reduce modulus).isZero = true := by
      rwa [UInt256.isZero_iff, hreduce]
    have hdvd : (modulus.toNat : Int) ∣ a.toInt := by
      rw [Int.natCast_dvd, hmagnitude]
      exact Nat.dvd_of_mod_eq_zero hzero
    rw [hisZero, Bool.not_true, Bool.and_false, if_neg (by simp), hreduce, hzero,
      Int.emod_eq_zero_of_dvd hdvd]
    rfl
  · have hisZero : (a.magnitude.reduce modulus).isZero = false := by
      rwa [Bool.eq_false_iff, ne_eq, UInt256.isZero_iff, hreduce]
    rw [hisZero, Bool.not_false, Bool.and_true]
    by_cases hneg : a.isNegative = true
    · have htoInt : a.toInt = -a.magnitude.toNat := by
        rw [isNegative_iff] at hneg
        omega
      rw [if_pos hneg, UInt256.toNat_wrappingSub (by omega), hreduce, htoInt,
        neg_emod_of_mod_ne_zero h hzero]
    · have htoInt : a.toInt = a.magnitude.toNat := by
        rw [isNegative_iff] at hneg
        omega
      rw [if_neg hneg, hreduce, htoInt, Int.natCast_emod]

theorem toNat_residue_of_toInt_eq {a : Signed} {n : Nat} (ha : a.toInt = n) {modulus : UInt256}
    (h : modulus.toNat ≠ 0) : (a.residue modulus).toNat = n % modulus.toNat := by
  have hresidue := a.toNat_residue h
  rw [ha, ← Int.natCast_emod] at hresidue
  exact Int.ofNat_inj.1 hresidue

theorem toNat_residue_ofUInt256 (a : UInt256) {modulus : UInt256} (h : modulus.toNat ≠ 0) :
    ((ofUInt256 a).residue modulus).toNat = a.toNat % modulus.toNat :=
  toNat_residue_of_toInt_eq (toInt_ofUInt256 a) h

theorem toNat_residue_lt (a : Signed) {modulus : UInt256} (h : modulus.toNat ≠ 0) :
    (a.residue modulus).toNat < modulus.toNat := by
  have hlt := Int.emod_lt_of_pos a.toInt (Int.natCast_pos.2 (Nat.pos_of_ne_zero h))
  rw [← toNat_residue a h] at hlt
  exact Int.ofNat_lt.1 hlt

theorem residue_eq_iff (a : Signed) {modulus r : UInt256} (h : modulus.toNat ≠ 0) :
    a.residue modulus = r ↔
      r.toNat < modulus.toNat ∧ (r.toNat : Int) ≡ a.toInt [ZMOD modulus.toNat] := by
  have hresidue := a.toNat_residue h
  constructor
  · rintro rfl
    refine ⟨a.toNat_residue_lt h, ?_⟩
    rw [hresidue]
    exact Int.mod_modEq _ _
  · rintro ⟨hlt, hmod⟩
    have hr : (r.toNat : Int) % modulus.toNat = r.toNat :=
      Int.emod_eq_of_lt (Int.natCast_nonneg _) (Int.ofNat_lt.2 hlt)
    rw [← UInt256.toNat_inj, ← Int.natCast_inj, hresidue, ← hmod, hr]

theorem residue_of_dvd (a : Signed) {modulus : UInt256} (h : modulus.toNat ≠ 0)
    (hdvd : modulus.toNat ∣ a.magnitude.toNat) : a.residue modulus = .zero := by
  rw [← natAbs_toInt, ← Int.natCast_dvd] at hdvd
  rw [residue_eq_iff a h, UInt256.toNat_zero]
  exact ⟨Nat.pos_of_ne_zero h, (Int.modEq_zero_iff_dvd.2 hdvd).symm⟩

/-- Reduction is the Euclidean remainder for every sign, every 512-bit magnitude and every nonzero
modulus: the one congruent integer from zero up. A difference reduces to the difference of the
integers. -/
theorem residue_is_euclidean {modulus : UInt256} (hmodulus : modulus ≠ .zero) :
    (∀ (negative : Bool) (v : UInt512) (r : UInt256),
      (⟨negative, v⟩ : Signed).residue modulus = r ↔ r.toNat < modulus.toNat ∧
        (r.toNat : Int) ≡ (if negative then -v.toNat else v.toNat) [ZMOD modulus.toNat]) ∧
    (∀ (negative : Bool) (v : UInt512), modulus.toNat ∣ v.toNat →
      (⟨negative, v⟩ : Signed).residue modulus = .zero) ∧
    ∀ a b : UInt256, (((difference a b).residue modulus).toNat : Int) =
      ((a.toNat : Int) - b.toNat) % modulus.toNat := by
  have h : modulus.toNat ≠ 0 := by
    rwa [← UInt256.toNat_zero, ne_eq, UInt256.toNat_inj]
  refine ⟨?_, ?_, ?_⟩
  · intro negative v r
    exact residue_eq_iff ⟨negative, v⟩ h
  · intro negative v hdvd
    exact residue_of_dvd ⟨negative, v⟩ h hdvd
  · intro a b
    rw [toNat_residue _ h, toInt_difference]

/-- The modulus `2 ^ 255 + 1`. The double of a remainder may need 257 bits. -/
def wideModulus : UInt256 := ⟨1, 0, 0, 0x8000000000000000⟩

theorem residue_at_wide_modulus :
    wideModulus ≠ .zero ∧ (⟨true, ⟨.zero, .one⟩⟩ : Signed).residue wideModulus = .ofLimb 2 ∧
      (⟨true, .ofUInt256 wideModulus⟩ : Signed).residue wideModulus = .zero ∧
      (((difference .zero .one).residue wideModulus).toNat : Int) = 2 ^ 255 :=
  have hmodulus : wideModulus ≠ .zero := by decide
  have h := residue_is_euclidean hmodulus
  ⟨hmodulus, (h.1 true _ _).2 (by decide), h.2.1 true _ (by decide),
    (h.2.2 .zero .one).trans (by decide)⟩

end PallasVesta.Signed
