import Mathlib.AlgebraicGeometry.EllipticCurve.Jacobian.Point
import PallasVesta.Proofs.AffineCoordinates

namespace PallasVesta

open WeierstrassCurve

variable {C : CurveParams}

namespace CurveParams

def curve (C : CurveParams) : Affine (ZMod C.base.modulus.toNat) := ⟨0, 0, 0, 0, 5⟩

theorem equation_iff {x y : ZMod C.base.modulus.toNat} :
    C.curve.Equation x y ↔ y ^ 2 = x ^ 3 + 5 := by
  simp [Affine.equation_iff, curve]

theorem negY_eq (x y : ZMod C.base.modulus.toNat) : C.curve.negY x y = -y := by
  simp [Affine.negY, curve]

theorem addX_eq (x₁ x₂ slope : ZMod C.base.modulus.toNat) :
    C.curve.addX x₁ x₂ slope = slope ^ 2 - x₁ - x₂ := by
  simp [Affine.addX, curve]

theorem addY_eq (x₁ x₂ y₁ slope : ZMod C.base.modulus.toNat) : C.curve.addY x₁ x₂ y₁ slope =
    slope * (x₁ - C.curve.addX x₁ x₂ slope) - y₁ := by
  rw [Affine.addY, Affine.negAddY, negY_eq]
  ring

variable [C.InCycle]

theorem Δ_curve_ne_zero : C.curve.Δ ≠ 0 := by
  have hΔ : C.curve.Δ = -((10800 : Nat) : ZMod C.base.modulus.toNat) := by
    simp only [Δ, b₂, b₄, b₆, b₈, curve]
    push_cast
    ring
  rw [hΔ, neg_ne_zero]
  exact C.natCast_ne_zero (by decide) (by decide)

theorem nonsingular_iff {x y : ZMod C.base.modulus.toNat} :
    C.curve.Nonsingular x y ↔ y ^ 2 = x ^ 3 + 5 := by
  rw [← Affine.equation_iff_nonsingular_of_Δ_ne_zero Δ_curve_ne_zero, equation_iff]

end CurveParams

def AffinePoint.ofPoint : C.curve.Point → AffinePoint C
  | .zero => .identity
  | .some x y _ => .finite (.ofZMod x) (.ofZMod y)

theorem AffinePoint.ofPoint_injective [NeZero C.base.modulus.toNat] :
    Function.Injective (ofPoint : C.curve.Point → AffinePoint C) := by
  intro P Q h
  cases P with
  | zero =>
      cases Q with
      | zero => rfl
      | some x y hQ => nomatch congrArg AffinePoint.infinity h
  | some x y hP =>
      cases Q with
      | zero => nomatch congrArg AffinePoint.infinity h
      | some x' y' hQ =>
          obtain ⟨hx, hy, -⟩ := AffinePoint.mk.inj h
          obtain rfl := FieldElement.ofZMod_injective hx
          obtain rfl := FieldElement.ofZMod_injective hy
          rfl

namespace JacobianPoint

variable [hC : C.InCycle]

def coordinates (p : JacobianPoint C) : Fin 3 → ZMod C.base.modulus.toNat :=
  ![p.x.toZMod, p.y.toZMod, p.z.toZMod]

/-- The element of the group that a triple on the curve stands for. -/
noncomputable def point (p : JacobianPoint C) : C.curve.Point :=
  Jacobian.Point.toAffine C.curve p.coordinates

theorem point_of_z_eq_zero {p : JacobianPoint C} (hz : p.z.toZMod = 0) : p.point = 0 :=
  Jacobian.Point.toAffine_of_Z_eq_zero hz

theorem nonsingular_affine {p : JacobianPoint C} (hp : p.IsOnCurve) (hz : p.z.toZMod ≠ 0) :
    C.curve.Nonsingular p.affineX p.affineY := by
  rw [CurveParams.nonsingular_iff, affine_equation hp hz, CurveParams.toZMod_b]

theorem point_of_z_ne_zero {p : JacobianPoint C} (hp : p.IsOnCurve) (hz : p.z.toZMod ≠ 0) :
    p.point = .some p.affineX p.affineY (nonsingular_affine hp hz) := by
  have hcoordinates : p.coordinates 2 ≠ 0 := hz
  have hnonsingular : Jacobian.Nonsingular C.curve p.coordinates :=
    (Jacobian.nonsingular_of_Z_ne_zero hcoordinates).2 (nonsingular_affine hp hz)
  rw [point, Jacobian.Point.toAffine_of_Z_ne_zero hnonsingular hcoordinates]
  rfl

theorem point_eq_zero_iff {p : JacobianPoint C} (hp : p.IsOnCurve) :
    p.point = 0 ↔ p.z.toZMod = 0 := by
  constructor
  · intro h
    by_contra hz
    rw [point_of_z_ne_zero hp hz] at h
    exact Affine.Point.some_ne_zero _ h
  · exact point_of_z_eq_zero

theorem toAffine_eq_ofPoint {p : JacobianPoint C} (hcanonical : p.IsCanonical) (hp : p.IsOnCurve) :
    p.toAffine .exact = .ofPoint p.point := by
  by_cases hz : p.z.toZMod = 0
  · rw [point_of_z_eq_zero hz, toAffine_of_z_eq_zero (hcanonical.z.toZMod_eq_zero_iff.1 hz)]
    rfl
  · rw [point_of_z_ne_zero hp hz, toAffine_of_z_ne_zero hcanonical hz]
    rfl

theorem isIdentity_iff {p : JacobianPoint C} (hcanonical : p.IsCanonical) (hp : p.IsOnCurve) :
    p.isIdentity = true ↔ p.point = 0 := by
  rw [point_eq_zero_iff hp, isIdentity, FieldElement.isZero_iff_eq_zero,
    hcanonical.z.toZMod_eq_zero_iff]

/-- The first coordinate tells a point from all others but its negation. -/
theorem affineX_eq_iff {p q : JacobianPoint C} (hp : p.IsOnCurve) (hq : q.IsOnCurve)
    (hpz : p.z.toZMod ≠ 0) (hqz : q.z.toZMod ≠ 0) :
    p.affineX = q.affineX ↔ p.point = q.point ∨ p.point = -q.point := by
  rw [point_of_z_ne_zero hp hpz, point_of_z_ne_zero hq hqz]
  exact Affine.Point.X_eq_iff

theorem point_eq_iff {p q : JacobianPoint C} (hp : p.IsOnCurve) (hq : q.IsOnCurve)
    (hpz : p.z.toZMod ≠ 0) (hqz : q.z.toZMod ≠ 0) :
    p.point = q.point ↔ p.affineX = q.affineX ∧ p.affineY = q.affineY := by
  rw [point_of_z_ne_zero hp hpz, point_of_z_ne_zero hq hqz, Affine.Point.some.injEq]

theorem affineY_ne_zero {p : JacobianPoint C} (hp : p.IsOnCurve) (hz : p.z.toZMod ≠ 0) :
    p.affineY ≠ 0 := by
  intro hy
  have h := affine_equation hp hz
  rw [hy, zero_pow two_ne_zero, CurveParams.toZMod_b] at h
  exact C.cube_add_five_ne_zero _ h.symm

theorem point_identity : (identity : JacobianPoint C).point = 0 :=
  point_of_z_eq_zero FieldElement.toZMod_zero

theorem point_negate {p : JacobianPoint C} (hp : p.IsOnCurve) : p.negate.point = -p.point := by
  by_cases hz : p.z.toZMod = 0
  · rw [point_of_z_eq_zero hz, point_of_z_eq_zero (p := p.negate) hz, neg_zero]
  · rw [point_of_z_ne_zero hp hz, point_of_z_ne_zero (isOnCurve_negate hp) hz,
      Affine.Point.neg_some, Affine.Point.some.injEq, CurveParams.negY_eq]
    exact ⟨affineX_negate p, affineY_negate p⟩

theorem point_double {p : JacobianPoint C} (hp : p.IsOnCurve) :
    p.double.point = p.point + p.point := by
  by_cases hz : p.z.toZMod = 0
  · have hdouble : p.double.z.toZMod = 0 := by
      cases hnot : p.isIdentity with
      | false => rw [toZMod_z_double hnot, hz, mul_zero]
      | true => rwa [double_eq_self hnot]
    rw [point_of_z_eq_zero hz, point_of_z_eq_zero hdouble, add_zero]
  · have hy := affineY_ne_zero hp hz
    have hne : p.affineY ≠ C.curve.negY p.affineX p.affineY := by
      rw [CurveParams.negY_eq, ne_eq, eq_neg_iff_add_eq_zero, ← two_mul]
      exact mul_ne_zero C.two_ne_zero hy
    have hslope : C.curve.slope p.affineX p.affineX p.affineY p.affineY =
        3 * p.affineX ^ 2 / (2 * p.affineY) := by
      rw [Affine.slope_of_Y_ne rfl hne, CurveParams.negY_eq]
      simp only [CurveParams.curve]
      ring
    have hX : p.double.affineX = C.curve.addX p.affineX p.affineX
        (C.curve.slope p.affineX p.affineX p.affineY p.affineY) := by
      rw [CurveParams.addX_eq, hslope, affineX_double C.two_ne_zero hz hy]
      ring
    rw [point_of_z_ne_zero (isOnCurve_double hp) (toZMod_z_double_ne_zero C.two_ne_zero hz hy),
      point_of_z_ne_zero hp hz, Affine.Point.add_self_of_Y_ne hne, Affine.Point.some.injEq,
      CurveParams.addY_eq, ← hX, hslope]
    exact ⟨rfl, affineY_double C.two_ne_zero hz hy⟩

theorem point_add {p q : JacobianPoint C} (hp : p.IsOnCurve) (hq : q.IsOnCurve)
    (hpz : p.z.toZMod ≠ 0) (hqz : q.z.toZMod ≠ 0) (hx : p.affineX ≠ q.affineX) :
    (p.add q).point = p.point + q.point := by
  have hslope : C.curve.slope p.affineX q.affineX p.affineY q.affineY =
      (q.affineY - p.affineY) / (q.affineX - p.affineX) := by
    rw [Affine.slope_of_X_ne hx, ← neg_sub q.affineY, ← neg_sub q.affineX, neg_div_neg_eq]
  have hX : (p.add q).affineX = C.curve.addX p.affineX q.affineX
      (C.curve.slope p.affineX q.affineX p.affineY q.affineY) := by
    rw [CurveParams.addX_eq, hslope, affineX_add C.two_ne_zero hpz hqz hx]
  rw [point_of_z_ne_zero (isOnCurve_add hp hq) (toZMod_z_add_ne_zero C.two_ne_zero hpz hqz hx),
    point_of_z_ne_zero hp hpz, point_of_z_ne_zero hq hqz, Affine.Point.add_of_X_ne hx,
    Affine.Point.some.injEq, CurveParams.addY_eq, ← hX, hslope]
  exact ⟨rfl, affineY_add C.two_ne_zero hpz hqz hx⟩

end JacobianPoint

end PallasVesta
