import Mathlib.FieldTheory.Finite.Basic
import PallasVesta.Curve.Affine
import PallasVesta.Proofs.FieldRing
import PallasVesta.Proofs.Primality

namespace PallasVesta.CurveParams

class InCycle (C : CurveParams) : Prop where
  eq_or_eq : C = pallas ∨ C = vesta

instance : pallas.InCycle := ⟨Or.inl rfl⟩

instance : vesta.InCycle := ⟨Or.inr rfl⟩

theorem toZMod_b (C : CurveParams) [NeZero C.base.modulus.toNat] : C.b.toZMod = 5 := by
  rw [b, FieldElement.toZMod_ofUInt64]
  rfl

variable (C : CurveParams) [hC : C.InCycle]

instance : Fact C.base.modulus.toNat.Prime := by
  rcases hC.eq_or_eq with rfl | rfl
  · exact ⟨FieldParams.prime_fp⟩
  · exact ⟨FieldParams.prime_fq⟩

instance : Fact C.scalar.modulus.toNat.Prime := by
  rcases hC.eq_or_eq with rfl | rfl
  · exact ⟨FieldParams.prime_fq⟩
  · exact ⟨FieldParams.prime_fp⟩

theorem lt_base_modulus : 2 ^ 254 < C.base.modulus.toNat := by
  rcases hC.eq_or_eq with rfl | rfl <;> decide

theorem natCast_ne_zero {n : Nat} (hpos : 0 < n) (hlt : n ≤ 2 ^ 254) :
    (n : ZMod C.base.modulus.toNat) ≠ 0 := by
  intro hzero
  rw [ZMod.natCast_eq_zero_iff] at hzero
  have hle := Nat.le_of_dvd hpos hzero
  have hmodulus := C.lt_base_modulus
  omega

theorem two_ne_zero : (2 : ZMod C.base.modulus.toNat) ≠ 0 :=
  C.natCast_ne_zero Nat.two_pos (by decide)

/-- Five is not a cube: its power to a third of the order of the group is not one. -/
theorem cube_ne_five (x : ZMod C.base.modulus.toNat) : x ^ 3 ≠ 5 := by
  intro hcube
  have hprime : C.base.modulus.toNat.Prime := Fact.out
  have hx : x ≠ 0 := by
    intro hzero
    rw [hzero, zero_pow (by decide)] at hcube
    exact C.natCast_ne_zero (by decide) (by decide) hcube.symm
  have hthird : 3 * ((C.base.modulus.toNat - 1) / 3) = C.base.modulus.toNat - 1 := by
    rcases hC.eq_or_eq with rfl | rfl <;> decide
  have hpower : powMod C.base.modulus.toNat 254 5 ((C.base.modulus.toNat - 1) / 3) ≠ 1 := by
    rcases hC.eq_or_eq with rfl | rfl <;> decide +kernel
  have hbound : (C.base.modulus.toNat - 1) / 3 < 2 ^ 254 := by
    rcases hC.eq_or_eq with rfl | rfl <;> decide
  apply hpower
  rw [← natCast_pow_eq_iff hprime.pos 5 hbound hprime.one_lt, Nat.cast_one, Nat.cast_ofNat,
    ← hcube, ← pow_mul, hthird, ZMod.pow_card_sub_one_eq_one hx]

/-- The polynomial of the curve equation has no root, so no point is its own negation. -/
theorem cube_add_five_ne_zero (x : ZMod C.base.modulus.toNat) : x ^ 3 + 5 ≠ 0 := by
  intro hzero
  apply C.cube_ne_five (-x)
  rw [Odd.neg_pow (by decide), neg_eq_iff_eq_neg]
  exact eq_neg_of_add_eq_zero_left hzero

end PallasVesta.CurveParams
