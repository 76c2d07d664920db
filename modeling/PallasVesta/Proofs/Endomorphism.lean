import PallasVesta.Proofs.Canonicity
import PallasVesta.Proofs.ScalarMultiples

namespace PallasVesta

open WeierstrassCurve

variable {C : CurveParams} [hC : C.InCycle]

namespace CurveParams

section

variable {ω : ZMod C.base.modulus.toNat} (hω : ω ^ 3 = 1)

include hω

theorem cubeRoot_ne_zero : ω ≠ 0 := by
  rintro rfl
  exact zero_ne_one ((zero_pow three_ne_zero).symm.trans hω)

theorem slope_mul (x₁ x₂ y₁ y₂ : ZMod C.base.modulus.toNat) :
    C.curve.slope (ω * x₁) (ω * x₂) y₁ y₂ = ω ^ 2 * C.curve.slope x₁ x₂ y₁ y₂ := by
  have hne := cubeRoot_ne_zero hω
  by_cases hx : x₁ = x₂
  · rw [hx]
    by_cases hy : y₁ = C.curve.negY x₂ y₂
    · have hy' : y₁ = C.curve.negY (ω * x₂) y₂ := by rw [hy, negY_eq, negY_eq]
      rw [Affine.slope_of_Y_eq rfl hy, Affine.slope_of_Y_eq rfl hy', mul_zero]
    · have hy' : y₁ ≠ C.curve.negY (ω * x₂) y₂ := by rwa [negY_eq, ← negY_eq x₂]
      rw [Affine.slope_of_Y_ne rfl hy, Affine.slope_of_Y_ne rfl hy', negY_eq, negY_eq]
      simp only [curve]
      ring
  · have hx' : ω * x₁ ≠ ω * x₂ := by rwa [ne_eq, mul_right_inj' hne]
    rw [Affine.slope_of_X_ne hx, Affine.slope_of_X_ne hx', ← mul_sub]
    have hrun : x₁ - x₂ ≠ 0 := sub_ne_zero.2 hx
    field_simp
    linear_combination (y₂ - y₁) * hω

theorem addX_mul (x₁ x₂ slope : ZMod C.base.modulus.toNat) :
    C.curve.addX (ω * x₁) (ω * x₂) (ω ^ 2 * slope) = ω * C.curve.addX x₁ x₂ slope := by
  rw [addX_eq, addX_eq]
  linear_combination ω * slope ^ 2 * hω

theorem addY_mul (x₁ x₂ y₁ slope : ZMod C.base.modulus.toNat) :
    C.curve.addY (ω * x₁) (ω * x₂) y₁ (ω ^ 2 * slope) = C.curve.addY x₁ x₂ y₁ slope := by
  rw [addY_eq, addY_eq, addX_mul hω]
  linear_combination slope * (x₁ - C.curve.addX x₁ x₂ slope) * hω

theorem nonsingular_mul {x y : ZMod C.base.modulus.toNat} (h : C.curve.Nonsingular x y) :
    C.curve.Nonsingular (ω * x) y := by
  rw [nonsingular_iff] at h ⊢
  rw [h, mul_pow, hω, one_mul]

end

theorem endoBase_pow_three : C.endoBaseElement.toZMod ^ 3 = 1 := by
  have hcube : C.endoBase.toNat ^ 3 ≡ 1 [MOD C.base.modulus.toNat] := by
    rcases hC.eq_or_eq with rfl | rfl <;> decide +kernel
  rw [← ZMod.natCast_eq_natCast_iff, Nat.cast_pow, Nat.cast_one] at hcube
  exact hcube

/-- The map `(x, y) ↦ (β * x, y)` with the cube root of unity `β` of the curve. -/
def endomorphism (C : CurveParams) [C.InCycle] : C.curve.Point →+ C.curve.Point where
  toFun
    | .zero => 0
    | .some x y h => .some (C.endoBaseElement.toZMod * x) y (nonsingular_mul endoBase_pow_three h)
  map_zero' := rfl
  map_add' := by
    have hω := C.endoBase_pow_three
    rintro (_ | ⟨x₁, y₁, h₁⟩) (_ | ⟨x₂, y₂, h₂⟩)
    any_goals rfl
    by_cases hxy : x₁ = x₂ ∧ y₁ = C.curve.negY x₂ y₂
    · obtain ⟨hx, hy⟩ := hxy
      rw [Affine.Point.add_of_Y_eq hx hy,
        Affine.Point.add_of_Y_eq (congrArg _ hx) (by rw [hy, negY_eq, negY_eq])]
    · have hxy' : ¬(C.endoBaseElement.toZMod * x₁ = C.endoBaseElement.toZMod * x₂ ∧
          y₁ = C.curve.negY (C.endoBaseElement.toZMod * x₂) y₂) := by
        rwa [mul_right_inj' (cubeRoot_ne_zero hω), negY_eq, ← negY_eq x₂]
      rw [Affine.Point.add_some hxy, Affine.Point.add_some hxy', Affine.Point.some.injEq,
        slope_mul hω, addX_mul hω, addY_mul hω]
      exact ⟨rfl, rfl⟩

theorem endomorphism_some {x y : ZMod C.base.modulus.toNat} (h : C.curve.Nonsingular x y) :
    C.endomorphism (.some x y h) =
      .some (C.endoBaseElement.toZMod * x) y (nonsingular_mul endoBase_pow_three h) :=
  rfl

end CurveParams

namespace Triple

/-- The image of the generator, with the product of its first coordinate not reduced. -/
def generatorImage (C : CurveParams) : Triple :=
  ⟨C.endoBase.toNat * C.generatorX.toNat, C.generatorY.toNat, 1⟩

def endomorphismScales (C : CurveParams) : Bool :=
  (multiple C.base.modulus.toNat (generator C) 255 C.endoScalar.toNat).any fun t =>
    t.run C.base.modulus.toNat (generatorImage C) == 0 &&
      t.rise C.base.modulus.toNat (generatorImage C) == 0

theorem endomorphismScales_pallas : endomorphismScales .pallas = true := by
  decide +kernel

theorem endomorphismScales_vesta : endomorphismScales .vesta = true := by
  decide +kernel

end Triple

namespace JacobianPoint

theorem affineX_generatorImage : ((Triple.generatorImage C).toPoint : JacobianPoint C).affineX =
    C.endoBaseElement.toZMod * (generator : JacobianPoint C).affineX := by
  simp only [affineX, Triple.generatorImage, Triple.toPoint, generator, FieldElement.toZMod_ofZMod,
    FieldElement.toZMod_one, Nat.cast_mul, Nat.cast_one, one_pow, div_one]
  rfl

theorem affineY_generatorImage : ((Triple.generatorImage C).toPoint : JacobianPoint C).affineY =
    (generator : JacobianPoint C).affineY := by
  simp only [affineY, Triple.generatorImage, Triple.toPoint, generator, FieldElement.toZMod_ofZMod,
    FieldElement.toZMod_one, Nat.cast_one, one_pow, div_one]
  rfl

theorem finite_generatorImage :
    ((Triple.generatorImage C).toPoint : JacobianPoint C).z.toZMod ≠ 0 := by
  rw [Triple.generatorImage, Triple.toPoint, FieldElement.toZMod_ofZMod, Nat.cast_one]
  exact one_ne_zero

/-- The generator is an eigenvector of the endomorphism. -/
theorem endomorphism_generator : C.endomorphism (generator : JacobianPoint C).point =
    C.endoScalar.toNat • (generator : JacobianPoint C).point := by
  have hscales : Triple.endomorphismScales C = true := by
    rcases hC.eq_or_eq with rfl | rfl
    · exact Triple.endomorphismScales_pallas
    · exact Triple.endomorphismScales_vesta
  -- `t` is the multiple as computed; its affine coordinates are those of the image.
  obtain ⟨t, ht, himage⟩ := (Option.any_eq_true _ _).1 hscales
  obtain ⟨hrun, hrise⟩ := Bool.and_eq_true_iff.1 himage
  rw [beq_iff_eq] at hrun hrise
  have hmultiple := Triple.isMultiple_of_multiple isMultiple_generator ht
  have hx := Triple.natCast_run (C := C) t (.generatorImage C)
  rw [hrun, Nat.cast_zero, eq_comm, run_eq_zero_iff hmultiple.finite finite_generatorImage,
    affineX_generatorImage] at hx
  have hy := Triple.natCast_rise (C := C) t (.generatorImage C)
  rw [hrise, Nat.cast_zero, eq_comm, rise_eq_zero_iff hmultiple.finite finite_generatorImage,
    affineY_generatorImage] at hy
  rw [← toPoint_generator, ← hmultiple.point_eq, toPoint_generator,
    point_of_z_ne_zero hmultiple.isOnCurve hmultiple.finite,
    point_of_z_ne_zero isOnCurve_generator finite_generator, CurveParams.endomorphism_some,
    Affine.Point.some.injEq]
  exact ⟨hx.symm, hy.symm⟩

theorem endomorphism_smul_generator (n : Nat) :
    C.endomorphism (n • (generator : JacobianPoint C).point) =
      C.endoScalar.toNat • n • (generator : JacobianPoint C).point := by
  rw [map_nsmul, endomorphism_generator, smul_comm]

theorem point_eq_of_toAffine {p : JacobianPoint C} {P : C.curve.Point} (hp : p.IsCanonical)
    (hz : p.z ≠ 0) (h : p.toAffine .exact = .ofPoint P) : p.IsOnCurve ∧ p.point = P := by
  rw [ne_eq, ← hp.z.toZMod_eq_zero_iff] at hz
  have hcurve : p.IsOnCurve := by
    rw [toAffine_of_z_ne_zero hp hz] at h
    cases P with
    | zero => nomatch congrArg AffinePoint.infinity h
    | some x y hxy =>
        obtain ⟨hx, hy, -⟩ := AffinePoint.mk.inj h
        rw [← FieldElement.ofZMod_injective hx, ← FieldElement.ofZMod_injective hy,
          CurveParams.nonsingular_iff] at hxy
        rw [isOnCurve_iff, CurveParams.toZMod_b, ← affineX_mul hz, ← affineY_mul hz]
        linear_combination p.z.toZMod ^ 6 * hxy
  rw [toAffine_eq_ofPoint hp hcurve] at h
  exact ⟨hcurve, AffinePoint.ofPoint_injective h⟩

/-- Scaling by the scalar constant multiplies the first coordinate by the base constant, on every
triple for a finite multiple of the generator. -/
theorem toAffine_scale_endoScalar {p : JacobianPoint C} {n : Nat} (hp : p.IsCanonical)
    (hz : p.z ≠ 0)
    (hmultiple : p.toAffine .exact = .ofPoint (n • (generator : JacobianPoint C).point)) :
    (p.scale C.endoScalarElement).toAffine .exact =
      .finite (C.endoBaseElement * (p.toAffine .exact).x) (p.toAffine .exact).y := by
  obtain ⟨hcurve, hpoint⟩ := point_eq_of_toAffine hp hz hmultiple
  have horder : C.scalar.modulus.toNat • p.point = 0 := by
    rw [hpoint, smul_comm, order_smul_generator, nsmul_zero]
  have hscale : (p.scale C.endoScalarElement).point = C.endomorphism p.point := by
    rw [point_scale hp hcurve horder CurveParams.isCanonical_endoScalar, hpoint,
      endomorphism_smul_generator]
    rfl
  rw [ne_eq, ← hp.z.toZMod_eq_zero_iff] at hz
  rw [toAffine_eq_ofPoint (isCanonical_scale CurveParams.one_lt_base_modulus hp _)
      (isOnCurve_scale hcurve _), hscale, point_of_z_ne_zero hcurve hz,
    CurveParams.endomorphism_some, toAffine_of_z_ne_zero hp hz]
  have hx : FieldElement.ofZMod (C.endoBaseElement.toZMod * p.affineX) =
      C.endoBaseElement * .ofZMod p.affineX := by
    rw [(FieldElement.isCanonical_mul _ _).ofZMod_eq_iff, FieldElement.toZMod_mul,
      FieldElement.toZMod_ofZMod]
  rw [AffinePoint.ofPoint, hx]
  rfl

theorem toAffine_scale_double_endoScalar :
    (generator.double : JacobianPoint .pallas).z ≠ 0 ∧
      (generator.double : JacobianPoint .pallas).z ≠ 1 ∧
      (generator.double : JacobianPoint .pallas).toAffine .exact =
        .ofPoint (2 • (generator : JacobianPoint .pallas).point) ∧
      ((generator.double : JacobianPoint .pallas).scale
          CurveParams.pallas.endoScalarElement).toAffine .exact =
        .finite
          (CurveParams.pallas.endoBaseElement *
            ((generator.double : JacobianPoint .pallas).toAffine .exact).x)
          ((generator.double : JacobianPoint .pallas).toAffine .exact).y :=
  have hcanonical : (generator.double : JacobianPoint .pallas).IsCanonical :=
    isCanonical_double isCanonical_generator
  have hfinite : (generator.double : JacobianPoint .pallas).z ≠ 0 := by decide +kernel
  have hmultiple : (generator.double : JacobianPoint .pallas).toAffine .exact =
      .ofPoint (2 • (generator : JacobianPoint .pallas).point) := by
    rw [toAffine_eq_ofPoint hcanonical (isOnCurve_double isOnCurve_generator),
      point_double isOnCurve_generator, two_nsmul]
  ⟨hfinite, by decide +kernel, hmultiple,
    toAffine_scale_endoScalar hcanonical hfinite hmultiple⟩

end JacobianPoint

end PallasVesta
