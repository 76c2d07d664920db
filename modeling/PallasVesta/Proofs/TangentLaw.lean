import PallasVesta.Proofs.GroupLaw

namespace PallasVesta

variable {C : CurveParams}

def AffinePoint.tangent (a : AffinePoint C) : Except ArithmeticError (AffinePoint C) := do
  let slope ← (a.x.square.double + a.x.square).div a.y.double
  let x := slope.square - a.x.double
  return .finite x (slope * (a.x - x) - a.y)

section

variable [Fact C.base.modulus.toNat.Prime] {p : JacobianPoint C} (hp : p.IsCanonical)

include hp

theorem JacobianPoint.affineY_eq_zero_iff (hz : p.z.toZMod ≠ 0) : p.affineY = 0 ↔ p.y = 0 := by
  rw [affineY, div_eq_zero_iff, or_iff_left (pow_ne_zero 3 hz), hp.y.toZMod_eq_zero_iff]

theorem JacobianPoint.z_double_eq_zero (hy : p.y = 0) : p.double.z = 0 := by
  cases hz : p.isIdentity with
  | false =>
      rw [← (isCanonical_double hp).z.toZMod_eq_zero_iff, toZMod_z_double hz, hy,
        FieldElement.toZMod_zero, mul_zero, zero_mul]
  | true =>
      rw [double_eq_self hz]
      exact FieldElement.isZero_iff_eq_zero.1 hz

end

section

variable [Fact C.base.modulus.toNat.Prime] (htwo : (2 : ZMod C.base.modulus.toNat) ≠ 0)

include htwo

theorem AffinePoint.exists_tangent {a : AffinePoint C} (hy : a.y.toZMod ≠ 0) :
    ∃ x y : FieldElement C.base, x.IsCanonical ∧ y.IsCanonical ∧
      x.toZMod = (3 * a.x.toZMod ^ 2 / (2 * a.y.toZMod)) ^ 2 - 2 * a.x.toZMod ∧
      y.toZMod = 3 * a.x.toZMod ^ 2 / (2 * a.y.toZMod) * (a.x.toZMod - x.toZMod) - a.y.toZMod ∧
      a.tangent = .ok (.finite x y) := by
  have hrun : a.y.double.toZMod ≠ 0 := by
    rw [FieldElement.toZMod_double]
    exact mul_ne_zero htwo hy
  have hrise : (a.x.square.double + a.x.square).toZMod = 3 * a.x.toZMod ^ 2 := by
    rw [FieldElement.toZMod_add, FieldElement.toZMod_double, FieldElement.toZMod_square]
    ring
  obtain ⟨slope, -, hslope, hdiv⟩ :=
    FieldElement.exists_div (a.x.square.double + a.x.square) hrun
  rw [hrise, FieldElement.toZMod_double] at hslope
  refine ⟨slope.square - a.x.double, slope * (a.x - (slope.square - a.x.double)) - a.y,
    FieldElement.isCanonical_sub _ _, FieldElement.isCanonical_sub _ _, ?_, ?_, ?_⟩
  · rw [FieldElement.toZMod_sub, FieldElement.toZMod_square, FieldElement.toZMod_double, hslope]
  · rw [FieldElement.toZMod_sub, FieldElement.toZMod_mul, FieldElement.toZMod_sub a.x, hslope]
  · rw [tangent, hdiv]
    rfl

namespace JacobianPoint

variable {p q : JacobianPoint C} (hp : p.IsCanonical) (hq : q.IsCanonical)

include hp

theorem tangent_toAffine (hz : p.z.toZMod ≠ 0) (hy : p.affineY ≠ 0) :
    (p.toAffine .exact).tangent = .ok (p.double.toAffine .exact) := by
  rw [toAffine_of_z_ne_zero hp hz,
    toAffine_of_z_ne_zero (isCanonical_double hp) (toZMod_z_double_ne_zero htwo hz hy)]
  have hne : (AffinePoint.finite (.ofZMod p.affineX) (.ofZMod p.affineY) : AffinePoint C).y.toZMod ≠
      0 := by
    rw [AffinePoint.finite, FieldElement.toZMod_ofZMod]
    exact hy
  obtain ⟨x, y, hxc, hyc, hX, hY, htangent⟩ := AffinePoint.exists_tangent htwo hne
  simp only [AffinePoint.finite, FieldElement.toZMod_ofZMod] at hX hY
  rw [← affineX_double htwo hz hy] at hX
  rw [hX, ← affineY_double htwo hz hy] at hY
  rw [htangent, hxc.ofZMod_eq_iff.2 hX, hyc.ofZMod_eq_iff.2 hY]

include hq in
theorem toAffine_double_congr (h : p.toAffine .exact = q.toAffine .exact) :
    p.double.toAffine .exact = q.double.toAffine .exact := by
  by_cases hpz : p.z = 0
  · have hqz : q.z = 0 := by
      rwa [← toAffine_eq_identity_iff hq, ← h, toAffine_eq_identity_iff hp]
    rw [double_eq_self (FieldElement.isZero_iff_eq_zero.2 hpz),
      double_eq_self (FieldElement.isZero_iff_eq_zero.2 hqz), h]
  · have hqz : q.z ≠ 0 := by
      rwa [ne_eq, ← toAffine_eq_identity_iff hq, ← h, toAffine_eq_identity_iff hp]
    rw [← hp.z.toZMod_eq_zero_iff] at hpz
    rw [ne_eq, ← hq.z.toZMod_eq_zero_iff] at hqz
    have hsame : p.affineY = q.affineY := ((toAffine_eq_iff hp hq hpz hqz).1 h).2
    -- The tangents at both are vertical, or neither is and one affine point fixes its double.
    by_cases hy : p.affineY = 0
    · have hpy : p.y = 0 := (affineY_eq_zero_iff hp hpz).1 hy
      have hqy : q.y = 0 := (affineY_eq_zero_iff hq hqz).1 (hsame ▸ hy)
      rw [toAffine_of_z_eq_zero (z_double_eq_zero hp hpy),
        toAffine_of_z_eq_zero (z_double_eq_zero hq hqy)]
    · have hptangent := tangent_toAffine htwo hp hpz hy
      have hqtangent := tangent_toAffine htwo hq hqz (hsame ▸ hy)
      rw [h, hqtangent] at hptangent
      exact (Except.ok.inj hptangent).symm

end JacobianPoint

end

namespace JacobianPoint

/-- Doubling takes every finite triple along the tangent at its affine point, to the identity where
the tangent is vertical, and leaves the identity as it is. So on the curve it adds the point to
itself, and it never depends on which triple stands for the point. -/
theorem double_is_tangent {C : CurveParams} [C.InCycle] {p : JacobianPoint C}
    (hp : p.IsCanonical) :
    (p.z ≠ 0 → p.y ≠ 0 → p.double.z ≠ 0 ∧
      (p.toAffine .exact).tangent = .ok (p.double.toAffine .exact)) ∧
    (p.z ≠ 0 → p.y = 0 → p.double.z = 0) ∧
    (p.z = 0 → p.double = p) ∧
    (p.IsOnCurve → p.toAffine .exact = .ofPoint p.point ∧
      p.double.toAffine .exact = .ofPoint (p.point + p.point)) ∧
    ∀ q : JacobianPoint C, q.IsCanonical → p.toAffine .exact = q.toAffine .exact →
      p.double.toAffine .exact = q.double.toAffine .exact := by
  have hdouble := isCanonical_double hp
  refine ⟨?_, fun _ => z_double_eq_zero hp, ?_, ?_, ?_⟩
  · intro hz hy
    rw [ne_eq, ← hp.z.toZMod_eq_zero_iff] at hz
    rw [ne_eq, ← affineY_eq_zero_iff hp hz] at hy
    refine ⟨?_, tangent_toAffine C.two_ne_zero hp hz hy⟩
    rw [ne_eq, ← hdouble.z.toZMod_eq_zero_iff]
    exact toZMod_z_double_ne_zero C.two_ne_zero hz hy
  · intro hz
    exact double_eq_self (FieldElement.isZero_iff_eq_zero.2 hz)
  · intro hcurve
    rw [toAffine_eq_ofPoint hp hcurve, toAffine_eq_ofPoint hdouble (isOnCurve_double hcurve),
      point_double hcurve]
    exact ⟨rfl, rfl⟩
  · intro q hq h
    exact toAffine_double_congr C.two_ne_zero hp hq h

theorem double_off_curve_and_generator :
    (⟨1, 1, ⟨.ofLimb 2⟩⟩ : JacobianPoint .pallas).IsCanonical ∧
      ((⟨1, 1, ⟨.ofLimb 2⟩⟩ : JacobianPoint .pallas).toAffine .exact).tangent =
        .ok ((⟨1, 1, ⟨.ofLimb 2⟩⟩ : JacobianPoint .pallas).double.toAffine .exact) ∧
      (⟨1, 0, 1⟩ : JacobianPoint .pallas).IsCanonical ∧
      (⟨1, 0, 1⟩ : JacobianPoint .pallas).double.z = 0 ∧
      (identity : JacobianPoint .pallas).double = identity ∧
      (generator : JacobianPoint .pallas).IsOnCurve ∧
      (generator : JacobianPoint .pallas).double.toAffine .exact =
        .ofPoint ((generator : JacobianPoint .pallas).point + generator.point) :=
  have hM : 1 < CurveParams.pallas.base.modulus.toNat := by decide
  have hone : (1 : Fp).IsCanonical := FieldElement.isCanonical_one hM
  have htwo : (⟨.ofLimb 2⟩ : Fp).IsCanonical := by
    rw [FieldElement.IsCanonical]
    decide
  have hoff : (⟨1, 1, ⟨.ofLimb 2⟩⟩ : JacobianPoint .pallas).IsCanonical := ⟨hone, hone, htwo⟩
  have hvertical : (⟨1, 0, 1⟩ : JacobianPoint .pallas).IsCanonical :=
    ⟨hone, FieldElement.isCanonical_zero, hone⟩
  ⟨hoff, ((double_is_tangent hoff).1 (by decide) (by decide)).2, hvertical,
    (double_is_tangent hvertical).2.1 (by decide) rfl,
    (double_is_tangent (isCanonical_identity hM)).2.2.1 rfl, isOnCurve_generator,
    ((double_is_tangent isCanonical_generator).2.2.2.1 isOnCurve_generator).2⟩

end JacobianPoint

end PallasVesta
