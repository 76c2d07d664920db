import PallasVesta.Proofs.Canonicity
import PallasVesta.Proofs.IncompleteAddition
import PallasVesta.Proofs.ResidueRing
import PallasVesta.Proofs.ScalarMultiples

namespace PallasVesta.JacobianPoint

variable {C : CurveParams} [C.InCycle]

section

variable {P : C.curve.Point} (hr : C.scalar.modulus.toNat • P = 0)

include hr

theorem toNat_add_smul (a b : FieldElement C.scalar) :
    (a + b).value.toNat • P = a.value.toNat • P + b.value.toNat • P := by
  rw [FieldElement.toNat_add, ← nsmul_eq_mod_nsmul _ hr, add_nsmul]

theorem toNat_mul_smul (a b : FieldElement C.scalar) :
    (a * b).value.toNat • P = b.value.toNat • a.value.toNat • P := by
  rw [FieldElement.toNat_mul, ← nsmul_eq_mod_nsmul _ hr, mul_nsmul]

theorem toNat_neg_smul (a : FieldElement C.scalar) :
    (-a).value.toNat • P = -(a.value.toNat • P) := by
  have hzero : (-a + a).value.toNat = 0 := by
    have hcanonical := FieldElement.isCanonical_add (-a) a
    have hsum : -a + a = 0 := by
      rw [← hcanonical.toZMod_eq_zero_iff, FieldElement.toZMod_add, FieldElement.toZMod_neg,
        neg_add_cancel]
    rw [hsum]
    rfl
  rw [eq_neg_iff_add_eq_zero, ← toNat_add_smul hr, hzero, zero_nsmul]

theorem smul_inj (hP : P ≠ 0) {a b : FieldElement C.scalar} (ha : a.IsCanonical)
    (hb : b.IsCanonical) : a.value.toNat • P = b.value.toNat • P ↔ a = b := by
  have horder : addOrderOf P = C.scalar.modulus.toNat := addOrderOf_eq_prime hr hP
  constructor
  · intro h
    apply FieldElement.ext_value
    exact nsmul_injOn_Iio_addOrderOf (by rwa [horder]) (by rwa [horder]) h
  · rintro rfl
    rfl

end

section

variable {p : JacobianPoint C} (hcanonical : p.IsCanonical) (hp : p.IsOnCurve)
  (hr : C.scalar.modulus.toNat • p.point = 0)

include hcanonical hp hr

theorem point_scale_add {a b : FieldElement C.scalar} (ha : a.IsCanonical) (hb : b.IsCanonical)
    (ha0 : a ≠ 0) (hb0 : b ≠ 0) (hab : a ≠ b) :
    ((p.scale a).add (p.scale b)).point = (p.scale (a + b)).point := by
  have hacurve := isOnCurve_scale hp a
  have hbcurve := isOnCurve_scale hp b
  have hapoint := point_scale hcanonical hp hr ha
  have hbpoint := point_scale hcanonical hp hr hb
  rw [point_scale hcanonical hp hr (FieldElement.isCanonical_add a b), toNat_add_smul hr,
    ← hapoint, ← hbpoint]
  by_cases hzero : p.point = 0
  · -- Every multiple of the identity is the identity, also as the sum of two triples.
    rw [hzero, nsmul_zero] at hapoint hbpoint
    rw [point_add_iff hacurve hbcurve]
    exact Or.inl ⟨(point_eq_zero_iff hacurve).1 hapoint, (point_eq_zero_iff hbcurve).1 hbpoint⟩
  · have hfinite {k : FieldElement C.scalar} (hk : k.IsCanonical) (hk0 : k ≠ 0) :
        k.value.toNat • p.point ≠ 0 := by
      rw [ne_eq, smul_eq_zero_iff hr hk, not_or]
      exact ⟨fun h => hk0 (FieldElement.ext_value h), hzero⟩
    apply point_add_of_ne hacurve hbcurve
    · rw [hapoint]
      exact hfinite ha ha0
    · rw [hbpoint]
      exact hfinite hb hb0
    · rwa [hapoint, hbpoint, ne_eq, smul_inj hr hzero ha hb]

theorem point_scale_scale {a b : FieldElement C.scalar} (ha : a.IsCanonical)
    (hb : b.IsCanonical) : ((p.scale a).scale b).point = (p.scale (a * b)).point := by
  have hapoint := point_scale hcanonical hp hr ha
  have hkilled : C.scalar.modulus.toNat • (p.scale a).point = 0 := by
    rw [hapoint, smul_comm, hr, nsmul_zero]
  rw [point_scale (isCanonical_scale CurveParams.one_lt_base_modulus hcanonical a)
      (isOnCurve_scale hp a) hkilled hb, hapoint,
    point_scale hcanonical hp hr (FieldElement.isCanonical_mul a b), toNat_mul_smul hr]

/-- Scaling is the action of the scalar field on the points that the scalar modulus kills: one keeps
a point, a sum of different nonzero scalars adds their multiples, a product scales twice. -/
theorem scale_acts :
    (p.scale 1).toAffine .exact = p.toAffine .exact ∧
    ∀ a b : FieldElement C.scalar, a.IsCanonical → b.IsCanonical →
      (a ≠ 0 → b ≠ 0 → a ≠ b →
        ((p.scale a).add (p.scale b)).toAffine .exact = (p.scale (a + b)).toAffine .exact ∧
        (a = -b → ((p.scale a).add (p.scale b)).toAffine .exact = .identity)) ∧
      ((p.scale a).scale b).toAffine .exact = (p.scale (a * b)).toAffine .exact := by
  have hM : 1 < C.base.modulus.toNat := CurveParams.one_lt_base_modulus
  have hone : (1 : FieldElement C.scalar).IsCanonical :=
    FieldElement.isCanonical_one (Fact.out : Nat.Prime _).one_lt
  have hscale (k : FieldElement C.scalar) : (p.scale k).IsCanonical ∧ (p.scale k).IsOnCurve :=
    ⟨isCanonical_scale hM hcanonical k, isOnCurve_scale hp k⟩
  refine ⟨?_, ?_⟩
  · rw [toAffine_eq_ofPoint (hscale 1).1 (hscale 1).2, toAffine_eq_ofPoint hcanonical hp,
      point_scale hcanonical hp hr hone]
    exact congrArg AffinePoint.ofPoint (one_nsmul p.point)
  · intro a b ha hb
    refine ⟨?_, ?_⟩
    · intro ha0 hb0 hab
      have hadd := point_scale_add hcanonical hp hr ha hb ha0 hb0 hab
      rw [toAffine_eq_ofPoint (isCanonical_add _ _) (isOnCurve_add (hscale a).2 (hscale b).2), hadd,
        toAffine_eq_ofPoint (hscale (a + b)).1 (hscale (a + b)).2]
      refine ⟨rfl, ?_⟩
      rintro rfl
      rw [point_scale hcanonical hp hr (FieldElement.isCanonical_add _ _), toNat_add_smul hr,
        toNat_neg_smul hr, neg_add_cancel]
      rfl
    · rw [toAffine_eq_ofPoint (isCanonical_scale hM (hscale a).1 b)
          (isOnCurve_scale (hscale a).2 b), point_scale_scale hcanonical hp hr ha hb,
        toAffine_eq_ofPoint (hscale (a * b)).1 (hscale (a * b)).2]

end

theorem scale_double_generator_two_three :
    (generator.double : JacobianPoint .pallas).IsCanonical ∧
      (generator.double : JacobianPoint .pallas).IsOnCurve ∧
      CurveParams.pallas.scalar.modulus.toNat • (generator.double : JacobianPoint .pallas).point =
        0 ∧
      ((generator.double.scale ⟨.ofLimb 2⟩).add (generator.double.scale ⟨.ofLimb 3⟩) :
          JacobianPoint .pallas).toAffine .exact =
        (generator.double.scale ⟨.ofLimb 5⟩).toAffine .exact ∧
      ((generator.double.scale ⟨.ofLimb 2⟩).scale ⟨.ofLimb 3⟩ :
          JacobianPoint .pallas).toAffine .exact =
        (generator.double.scale ⟨.ofLimb 6⟩).toAffine .exact :=
  have hcanonical : (generator.double : JacobianPoint .pallas).IsCanonical :=
    isCanonical_double isCanonical_generator
  have hcurve : (generator.double : JacobianPoint .pallas).IsOnCurve :=
    isOnCurve_double isOnCurve_generator
  have hkilled : CurveParams.pallas.scalar.modulus.toNat •
      (generator.double : JacobianPoint .pallas).point = 0 := by
    rw [point_double isOnCurve_generator, nsmul_add, order_smul_generator, add_zero]
  have htwo : (⟨.ofLimb 2⟩ : Fq).IsCanonical := by rw [FieldElement.IsCanonical]; decide
  have hthree : (⟨.ofLimb 3⟩ : Fq).IsCanonical := by rw [FieldElement.IsCanonical]; decide
  have hsum : (⟨.ofLimb 2⟩ + ⟨.ofLimb 3⟩ : Fq) = ⟨.ofLimb 5⟩ := by decide +kernel
  have hproduct : (⟨.ofLimb 2⟩ * ⟨.ofLimb 3⟩ : Fq) = ⟨.ofLimb 6⟩ := by decide +kernel
  have h := (scale_acts hcanonical hcurve hkilled).2 ⟨.ofLimb 2⟩ ⟨.ofLimb 3⟩ htwo hthree
  ⟨hcanonical, hcurve, hkilled,
    hsum ▸ (h.1 (by decide) (by decide) (by decide)).1, hproduct ▸ h.2⟩

end PallasVesta.JacobianPoint
