import Mathlib.Algebra.Field.ZMod
import PallasVesta.Field.Basic
import PallasVesta.Proofs.FieldRing
import PallasVesta.Proofs.LongDivision

namespace PallasVesta.FieldElement

variable {M : FieldParams}

section

variable [NeZero M.modulus.toNat]

/-- The invariant of the search: the coefficients times the element are the two integers, whose
greatest common divisor stays the same. -/
theorem euclid_spec (a : FieldElement M) (dividend divisor : UInt256)
    (coefficient next : FieldElement M) (hcoefficient : coefficient.IsCanonical)
    (hnext : next.IsCanonical) (hdividend : coefficient.toZMod * a.toZMod = dividend.toNat)
    (hdivisor : next.toZMod * a.toZMod = divisor.toNat) :
    (dividend.toNat.gcd divisor.toNat = 1 → ∃ x : FieldElement M, x.IsCanonical ∧
      x.toZMod * a.toZMod = 1 ∧ euclid dividend divisor coefficient next = .ok x) ∧
    (dividend.toNat.gcd divisor.toNat ≠ 1 →
      euclid dividend divisor coefficient next = .error .uninvertible) := by
  induction dividend, divisor, coefficient, next using euclid.induct with
  | case1 divisor coefficient next hzero =>
      rw [UInt256.toNat_one, Nat.cast_one] at hdividend
      rw [euclid, if_pos hzero, if_pos rfl, UInt256.toNat_one, Nat.gcd_one_left]
      exact ⟨fun _ => ⟨coefficient, hcoefficient, hdividend, rfl⟩, fun h => absurd rfl h⟩
  | case2 dividend divisor coefficient next hzero hone =>
      rw [euclid, if_pos hzero, if_neg hone, (UInt256.isZero_iff divisor).1 hzero,
        Nat.gcd_zero_right, ← UInt256.toNat_one, UInt256.toNat_inj]
      exact ⟨fun h => absurd h hone, fun _ => rfl⟩
  | case3 dividend divisor coefficient next hzero cause hdiv =>
      rw [UInt256.isZero_iff] at hzero
      obtain ⟨quotient, remainder, hok, -⟩ := dividend.exists_divMod hzero
      rw [hdiv] at hok
      nomatch hok
  | case4 dividend divisor coefficient next hzero quotient remainder hdiv ih =>
      have hne := hzero
      rw [UInt256.isZero_iff] at hne
      obtain ⟨q, r, hok, hquotient, hremainder⟩ := dividend.exists_divMod hne
      rw [hdiv] at hok
      obtain ⟨rfl, rfl⟩ := Prod.mk.inj (Except.ok.inj hok)
      have hstep : (coefficient - next * reduce (.ofUInt256 quotient)).toZMod * a.toZMod =
          remainder.toNat := by
        have hcast : (dividend.toNat : ZMod M.modulus.toNat) =
            divisor.toNat * quotient.toNat + remainder.toNat := by
          rw [← Nat.cast_mul, ← Nat.cast_add, hquotient, hremainder, Nat.div_add_mod]
        rw [toZMod_sub, toZMod_mul, toZMod_reduce, Signed.toInt_ofUInt256, Int.cast_natCast,
          sub_mul, hdividend, mul_right_comm, hdivisor, hcast, add_sub_cancel_left]
      have hgcd : dividend.toNat.gcd divisor.toNat = divisor.toNat.gcd remainder.toNat := by
        rw [hremainder, Nat.gcd_comm, Nat.gcd_rec, Nat.gcd_comm]
      rw [euclid, if_neg hzero, hgcd]
      split
      · next cause hfail =>
          rw [hdiv] at hfail
          nomatch hfail
      · next hfound =>
          rw [hdiv] at hfound
          obtain ⟨rfl, rfl⟩ := Prod.mk.inj (Except.ok.inj hfound)
          exact ih hnext (isCanonical_sub _ _) hdivisor hstep

end

theorem inverse_spec (hM : 1 < M.modulus.toNat) (a : FieldElement M) :
    (M.modulus.toNat.gcd a.value.toNat = 1 → ∃ x : FieldElement M, x.IsCanonical ∧
      x.toZMod * a.toZMod = 1 ∧ a.inverse = .ok x) ∧
    (M.modulus.toNat.gcd a.value.toNat ≠ 1 → a.inverse = .error .uninvertible) := by
  have : NeZero M.modulus.toNat := ⟨by omega⟩
  by_cases hzero : a.isZero = true
  · have hvalue : a.value.toNat = 0 := (UInt256.isZero_iff _).1 hzero
    rw [inverse, if_pos hzero, hvalue, Nat.gcd_zero_right]
    exact ⟨fun h => by omega, fun _ => rfl⟩
  · rw [inverse, if_neg hzero]
    apply euclid_spec a M.modulus a.value 0 1 isCanonical_zero (isCanonical_one hM)
    · rw [toZMod_zero, zero_mul, ZMod.natCast_self]
    · rw [toZMod_one, one_mul, toZMod]

theorem of_inverse_eq_ok (hM : 1 < M.modulus.toNat) {a x : FieldElement M}
    (h : a.inverse = .ok x) : x.IsCanonical ∧ x.toZMod * a.toZMod = 1 := by
  by_cases hgcd : M.modulus.toNat.gcd a.value.toNat = 1
  · obtain ⟨y, hy, hmul, hok⟩ := (inverse_spec hM a).1 hgcd
    rw [h] at hok
    rw [Except.ok.inj hok]
    exact ⟨hy, hmul⟩
  · rw [(inverse_spec hM a).2 hgcd] at h
    nomatch h

theorem inverse_zero : (0 : FieldElement M).inverse = .error .uninvertible := rfl

section

variable [hprime : Fact M.modulus.toNat.Prime]

theorem exists_inverse {a : FieldElement M} (ha : a.toZMod ≠ 0) :
    ∃ x : FieldElement M, x.IsCanonical ∧ x.toZMod = a.toZMod⁻¹ ∧ a.inverse = .ok x := by
  have hcoprime : M.modulus.toNat.gcd a.value.toNat = 1 := by
    rw [← Nat.Coprime, hprime.out.coprime_iff_not_dvd, ← ZMod.natCast_eq_zero_iff]
    exact ha
  obtain ⟨x, hx, hmul, hok⟩ := (inverse_spec hprime.out.one_lt a).1 hcoprime
  exact ⟨x, hx, eq_inv_of_mul_eq_one_left hmul, hok⟩

theorem exists_div (a : FieldElement M) {b : FieldElement M} (hb : b.toZMod ≠ 0) :
    ∃ x : FieldElement M, x.IsCanonical ∧ x.toZMod = a.toZMod / b.toZMod ∧ a.div b = .ok x := by
  obtain ⟨inverse, -, hinverse, hok⟩ := exists_inverse hb
  refine ⟨a * inverse, isCanonical_mul _ _, ?_, ?_⟩
  · rw [toZMod_mul, hinverse, div_eq_mul_inv]
  · rw [div, hok]
    rfl

end

end PallasVesta.FieldElement
