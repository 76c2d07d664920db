import Mathlib.Tactic.FieldSimp
import PallasVesta.Proofs.CurveEquation

namespace PallasVesta

variable {C : CurveParams}

namespace JacobianPoint

structure IsCanonical (p : JacobianPoint C) : Prop where
  x : p.x.IsCanonical
  y : p.y.IsCanonical
  z : p.z.IsCanonical

section

variable [NeZero C.base.modulus.toNat]

theorem isCanonical_negate {p : JacobianPoint C} (hp : p.IsCanonical) : p.negate.IsCanonical :=
  ⟨hp.x, FieldElement.isCanonical_neg _, hp.z⟩

theorem isCanonical_add (p q : JacobianPoint C) : (p.add q).IsCanonical :=
  ⟨FieldElement.isCanonical_sub _ _, FieldElement.isCanonical_sub _ _,
    FieldElement.isCanonical_mul _ _⟩

theorem isCanonical_sub (p q : JacobianPoint C) : (p.sub q).IsCanonical :=
  isCanonical_add p q.negate

theorem isCanonical_double {p : JacobianPoint C} (hp : p.IsCanonical) : p.double.IsCanonical := by
  rw [double]
  split
  · exact hp
  · exact ⟨FieldElement.isCanonical_sub _ _, FieldElement.isCanonical_sub _ _,
      FieldElement.isCanonical_double _⟩

theorem isCanonical_identity (hM : 1 < C.base.modulus.toNat) :
    (identity : JacobianPoint C).IsCanonical :=
  ⟨FieldElement.isCanonical_one hM, FieldElement.isCanonical_one hM, FieldElement.isCanonical_zero⟩

theorem isCanonical_scale (hM : 1 < C.base.modulus.toNat) {p : JacobianPoint C}
    (hp : p.IsCanonical) (k : FieldElement C.scalar) : (p.scale k).IsCanonical :=
  scaleBits_induction (isCanonical_identity hM) (fun p q _ _ => isCanonical_add p q)
    (fun _ => isCanonical_double) hp _

theorem eq_zero_triple_iff {p : JacobianPoint C} (hp : p.IsCanonical) :
    p = ⟨0, 0, 0⟩ ↔ p.x.toZMod = 0 ∧ p.y.toZMod = 0 ∧ p.z.toZMod = 0 := by
  rw [hp.x.toZMod_eq_zero_iff, hp.y.toZMod_eq_zero_iff, hp.z.toZMod_eq_zero_iff]
  obtain ⟨x, y, z⟩ := p
  exact mk.injEq x y z 0 0 0 ▸ Iff.rfl

end

theorem isCanonical_generator [hC : C.InCycle] : (generator : JacobianPoint C).IsCanonical := by
  have hM : 1 < C.base.modulus.toNat := (Fact.out : Nat.Prime _).one_lt
  refine ⟨?_, ?_, FieldElement.isCanonical_one hM⟩
  · rw [FieldElement.IsCanonical]
    rcases hC.eq_or_eq with rfl | rfl <;> decide
  · rw [FieldElement.IsCanonical]
    rcases hC.eq_or_eq with rfl | rfl <;> decide

theorem finite_generator [C.InCycle] : (generator : JacobianPoint C).z.toZMod ≠ 0 := by
  rw [generator, FieldElement.toZMod_one]
  exact one_ne_zero

theorem toAffine_of_z_eq_zero {p : JacobianPoint C} (hz : p.z = 0)
    (normalization : Normalization) : p.toAffine normalization = .identity := by
  rw [toAffine.eq_def, hz, if_neg FieldElement.zero_ne_one, FieldElement.inverse_zero]

variable [hprime : Fact C.base.modulus.toNat.Prime]

def affineX (p : JacobianPoint C) : ZMod C.base.modulus.toNat := p.x.toZMod / p.z.toZMod ^ 2

def affineY (p : JacobianPoint C) : ZMod C.base.modulus.toNat := p.y.toZMod / p.z.toZMod ^ 3

theorem toAffine_of_z_ne_zero {p : JacobianPoint C} (hp : p.IsCanonical)
    (hz : p.z.toZMod ≠ 0) :
    p.toAffine .exact = .finite (.ofZMod p.affineX) (.ofZMod p.affineY) := by
  rw [toAffine]
  split
  · next hone =>
      rw [hp.x.ofZMod_eq_iff.2, hp.y.ofZMod_eq_iff.2]
      · rw [affineY, hone, FieldElement.toZMod_one, one_pow, div_one]
      · rw [affineX, hone, FieldElement.toZMod_one, one_pow, div_one]
  · obtain ⟨inverse, -, hinverse, hok⟩ := FieldElement.exists_inverse hz
    rw [hok, (FieldElement.isCanonical_mul _ _).ofZMod_eq_iff.2,
      (FieldElement.isCanonical_mul _ _).ofZMod_eq_iff.2]
    · simp only [FieldElement.toZMod_mul, FieldElement.toZMod_square, hinverse, affineY]
      field_simp
    · simp only [FieldElement.toZMod_mul, FieldElement.toZMod_square, hinverse, affineX]
      field_simp

theorem toAffine_eq_identity_iff {p : JacobianPoint C} (hp : p.IsCanonical) :
    p.toAffine .exact = .identity ↔ p.z = 0 := by
  constructor
  · intro h
    by_contra hz
    rw [← hp.z.toZMod_eq_zero_iff] at hz
    rw [toAffine_of_z_ne_zero hp hz] at h
    nomatch congrArg AffinePoint.infinity h
  · intro hz
    exact toAffine_of_z_eq_zero hz _

theorem toAffine_eq_iff {p q : JacobianPoint C} (hp : p.IsCanonical) (hq : q.IsCanonical)
    (hpz : p.z.toZMod ≠ 0) (hqz : q.z.toZMod ≠ 0) : p.toAffine .exact = q.toAffine .exact ↔
      p.affineX = q.affineX ∧ p.affineY = q.affineY := by
  rw [toAffine_of_z_ne_zero hp hpz, toAffine_of_z_ne_zero hq hqz]
  constructor
  · intro h
    obtain ⟨hx, hy, -⟩ := AffinePoint.mk.inj h
    exact ⟨FieldElement.ofZMod_injective hx, FieldElement.ofZMod_injective hy⟩
  · rintro ⟨hx, hy⟩
    rw [hx, hy]

theorem toAffine_x_ne_iff {p q : JacobianPoint C} (hp : p.IsCanonical) (hq : q.IsCanonical)
    (hpz : p.z.toZMod ≠ 0) (hqz : q.z.toZMod ≠ 0) :
    (p.toAffine .exact).x ≠ (q.toAffine .exact).x ↔ p.affineX ≠ q.affineX := by
  rw [toAffine_of_z_ne_zero hp hpz, toAffine_of_z_ne_zero hq hqz]
  exact FieldElement.ofZMod_injective.ne_iff

section

variable {p q : JacobianPoint C}

theorem affineX_mul (hz : p.z.toZMod ≠ 0) : p.affineX * p.z.toZMod ^ 2 = p.x.toZMod :=
  div_mul_cancel₀ _ (pow_ne_zero 2 hz)

theorem affineY_mul (hz : p.z.toZMod ≠ 0) : p.affineY * p.z.toZMod ^ 3 = p.y.toZMod :=
  div_mul_cancel₀ _ (pow_ne_zero 3 hz)

theorem affineX_negate (p : JacobianPoint C) : p.negate.affineX = p.affineX := rfl

theorem affineY_negate (p : JacobianPoint C) : p.negate.affineY = -p.affineY := by
  rw [affineY, affineY, negate, FieldElement.toZMod_neg, neg_div]

theorem affine_equation (hp : p.IsOnCurve) (hz : p.z.toZMod ≠ 0) :
    p.affineY ^ 2 = p.affineX ^ 3 + C.b.toZMod := by
  rw [isOnCurve_iff, ← affineX_mul hz, ← affineY_mul hz] at hp
  apply mul_right_cancel₀ (pow_ne_zero 6 hz)
  linear_combination hp

theorem run_eq (hp : p.z.toZMod ≠ 0) (hq : q.z.toZMod ≠ 0) :
    p.run q = (q.affineX - p.affineX) * (p.z.toZMod * q.z.toZMod) ^ 2 := by
  rw [run, ← affineX_mul hp, ← affineX_mul hq]
  ring

theorem rise_eq (hp : p.z.toZMod ≠ 0) (hq : q.z.toZMod ≠ 0) :
    p.rise q = (q.affineY - p.affineY) * (p.z.toZMod * q.z.toZMod) ^ 3 := by
  rw [rise, ← affineY_mul hp, ← affineY_mul hq]
  ring

theorem run_eq_zero_iff (hp : p.z.toZMod ≠ 0) (hq : q.z.toZMod ≠ 0) :
    p.run q = 0 ↔ p.affineX = q.affineX := by
  rw [run_eq hp hq, mul_eq_zero_iff_right (pow_ne_zero 2 (mul_ne_zero hp hq)), sub_eq_zero, eq_comm]

theorem rise_eq_zero_iff (hp : p.z.toZMod ≠ 0) (hq : q.z.toZMod ≠ 0) :
    p.rise q = 0 ↔ p.affineY = q.affineY := by
  rw [rise_eq hp hq, mul_eq_zero_iff_right (pow_ne_zero 3 (mul_ne_zero hp hq)), sub_eq_zero,
    eq_comm]

end

section

variable (htwo : (2 : ZMod C.base.modulus.toNat) ≠ 0) {p q : JacobianPoint C}
  (hp : p.z.toZMod ≠ 0) (hq : q.z.toZMod ≠ 0)

include htwo hp hq in
theorem toZMod_z_add_ne_zero (hx : p.affineX ≠ q.affineX) : (p.add q).z.toZMod ≠ 0 := by
  rw [toZMod_z_add]
  exact mul_ne_zero htwo (mul_ne_zero (mul_ne_zero hp hq) (by rwa [ne_eq, run_eq_zero_iff hp hq]))

include htwo hp hq in
theorem affineX_add (hx : p.affineX ≠ q.affineX) : (p.add q).affineX =
    ((q.affineY - p.affineY) / (q.affineX - p.affineX)) ^ 2 - p.affineX - q.affineX := by
  have hrun : q.affineX - p.affineX ≠ 0 := sub_ne_zero.2 hx.symm
  rw [affineX, toZMod_x_add, toZMod_z_add, run_eq hp hq, rise_eq hp hq, ← affineX_mul hp]
  field_simp
  ring

include htwo hp hq in
theorem affineY_add (hx : p.affineX ≠ q.affineX) : (p.add q).affineY =
    (q.affineY - p.affineY) / (q.affineX - p.affineX) * (p.affineX - (p.add q).affineX) -
      p.affineY := by
  have hrun : q.affineX - p.affineX ≠ 0 := sub_ne_zero.2 hx.symm
  rw [affineX_add htwo hp hq hx, affineY, toZMod_y_add, toZMod_z_add, run_eq hp hq, rise_eq hp hq,
    ← affineX_mul hp, ← affineY_mul hp]
  field_simp
  ring

end

theorem isIdentity_eq_false {p : JacobianPoint C} (hz : p.z.toZMod ≠ 0) : p.isIdentity = false := by
  rw [isIdentity, ← Bool.not_eq_true, FieldElement.isZero_iff_eq_zero]
  intro h
  rw [h, FieldElement.toZMod_zero] at hz
  exact hz rfl

section

variable (htwo : (2 : ZMod C.base.modulus.toNat) ≠ 0) {p : JacobianPoint C}
  (hz : p.z.toZMod ≠ 0) (hy : p.affineY ≠ 0)

include htwo hz hy in
theorem toZMod_z_double_ne_zero : p.double.z.toZMod ≠ 0 := by
  rw [toZMod_z_double (isIdentity_eq_false hz), ← affineY_mul hz]
  exact mul_ne_zero (mul_ne_zero htwo (mul_ne_zero hy (pow_ne_zero 3 hz))) hz

include htwo hz hy in
theorem affineX_double :
    p.double.affineX = (3 * p.affineX ^ 2 / (2 * p.affineY)) ^ 2 - 2 * p.affineX := by
  have hnot := isIdentity_eq_false hz
  rw [affineX, toZMod_x_double hnot, toZMod_z_double hnot, ← affineX_mul hz, ← affineY_mul hz]
  field_simp
  ring

include htwo hz hy in
theorem affineY_double : p.double.affineY =
    3 * p.affineX ^ 2 / (2 * p.affineY) * (p.affineX - p.double.affineX) - p.affineY := by
  have hnot := isIdentity_eq_false hz
  rw [affineX_double htwo hz hy, affineY, toZMod_y_double hnot, toZMod_z_double hnot,
    ← affineX_mul hz, ← affineY_mul hz]
  field_simp
  ring

end

end JacobianPoint

end PallasVesta
