import PallasVesta.Proofs.IncompleteAddition

namespace PallasVesta.JacobianPoint

variable {C : CurveParams} [C.InCycle] {p q : JacobianPoint C}

theorem point_sub_of_ne (hp : p.IsOnCurve) (hq : q.IsOnCurve) (hpne : p.point ≠ 0)
    (hqne : q.point ≠ 0) (hne : p.point ≠ -q.point) : (p.sub q).point = p.point - q.point := by
  rw [← point_negate hq] at hne
  rw [sub_eq_add_neg, ← point_negate hq, sub]
  apply point_add_of_ne hp (isOnCurve_negate hq) hpne _ hne
  rwa [point_negate hq, neg_ne_zero]

theorem sub_eq_zero_triple (hp : p.IsOnCurve) (hq : q.IsOnCurve) (hpne : p.point ≠ 0)
    (hqne : q.point ≠ 0) (heq : p.point = -q.point) : p.sub q = ⟨0, 0, 0⟩ := by
  rw [ne_eq, point_eq_zero_iff hp] at hpne
  rw [ne_eq, point_eq_zero_iff hq] at hqne
  have hcurve := isOnCurve_negate hq
  have hsame : p.run q.negate = 0 ∧ p.rise q.negate = 0 := by
    rwa [← point_eq_iff_run_rise hp hcurve hpne hqne, point_negate hq]
  exact (add_eq_zero_triple_iff hp hcurve).2 (Or.inr hsame)

section

variable (hpc : p.IsOnCurve) (hqc : q.IsOnCurve) (hpz : p.z.toZMod ≠ 0) (hqz : q.z.toZMod ≠ 0)
  (hx : p.affineX ≠ q.affineX)

include hpc hqc hpz hqz hx

theorem point_add_ne_zero : (p.add q).point ≠ 0 := by
  rw [ne_eq, point_eq_zero_iff (isOnCurve_add hpc hqc)]
  exact toZMod_z_add_ne_zero C.two_ne_zero hpz hqz hx

theorem point_add_eq_neg_iff : (p.add q).point = -q.point ↔ p.point = -(2 • q.point) := by
  rw [point_add hpc hqc hpz hqz hx, eq_neg_iff_add_eq_zero, eq_neg_iff_add_eq_zero, two_nsmul,
    add_assoc]

theorem point_sub_add (hne : p.point ≠ -(2 • q.point)) : ((p.add q).sub q).point = p.point := by
  have hq : q.point ≠ 0 := by rwa [ne_eq, point_eq_zero_iff hqc]
  have hsum : (p.add q).point ≠ -q.point := by
    rwa [ne_eq, point_add_eq_neg_iff hpc hqc hpz hqz hx]
  rw [point_sub_of_ne (isOnCurve_add hpc hqc) hqc (point_add_ne_zero hpc hqc hpz hqz hx) hq hsum,
    point_add hpc hqc hpz hqz hx, add_sub_cancel_right]

end

theorem point_eq_neg_two_nsmul_iff (hp : p.IsCanonical) (hq : q.IsCanonical) (hpc : p.IsOnCurve)
    (hqc : q.IsOnCurve) :
    p.point = -(2 • q.point) ↔ p.toAffine .exact = q.double.negate.toAffine .exact := by
  have hdouble := isOnCurve_double hqc
  rw [toAffine_eq_ofPoint hp hpc,
    toAffine_eq_ofPoint (isCanonical_negate (isCanonical_double hq)) (isOnCurve_negate hdouble),
    AffinePoint.ofPoint_injective.eq_iff, point_negate hdouble, point_double hqc, two_nsmul]

/-- What is added to a point by a chord is taken away again by subtraction, unless the point is the
negation of the double of what is added. Then subtraction gives three zeros. -/
theorem sub_add_cancels {C : CurveParams} [C.InCycle] {p q : JacobianPoint C} (hp : p.IsCanonical)
    (hq : q.IsCanonical) (hpc : p.IsOnCurve) (hqc : q.IsOnCurve) (hpz : p.z ≠ 0) (hqz : q.z ≠ 0)
    (hx : (p.toAffine .exact).x ≠ (q.toAffine .exact).x) :
    (p.point ≠ -(2 • q.point) → ((p.add q).sub q).toAffine .exact = p.toAffine .exact) ∧
    (p.point = -(2 • q.point) → (p.add q).sub q = ⟨0, 0, 0⟩) ∧
    (p.point = -(2 • q.point) ↔ p.toAffine .exact = q.double.negate.toAffine .exact) := by
  rw [ne_eq, ← hp.z.toZMod_eq_zero_iff] at hpz
  rw [ne_eq, ← hq.z.toZMod_eq_zero_iff] at hqz
  rw [toAffine_x_ne_iff hp hq hpz hqz] at hx
  have hsum := isOnCurve_add hpc hqc
  refine ⟨?_, ?_, point_eq_neg_two_nsmul_iff hp hq hpc hqc⟩
  · intro hne
    rw [toAffine_eq_ofPoint (isCanonical_sub _ q) (isOnCurve_sub hsum hqc),
      toAffine_eq_ofPoint hp hpc, point_sub_add hpc hqc hpz hqz hx hne]
  · intro heq
    have hqne : q.point ≠ 0 := by rwa [ne_eq, point_eq_zero_iff hqc]
    rw [← point_add_eq_neg_iff hpc hqc hpz hqz hx] at heq
    exact sub_eq_zero_triple hsum hqc (point_add_ne_zero hpc hqc hpz hqz hx) hqne heq

/-- The generators differ only in which square root of six `y` is, and the run does not. -/
theorem run_double_generator : (generator : JacobianPoint C).double.run generator = 63 := by
  have hfinite := isIdentity_eq_false (finite_generator (C := C))
  have hx : (generator : JacobianPoint C).x.toZMod = 1 := by
    rcases (inferInstance : C.InCycle).eq_or_eq with rfl | rfl <;> exact FieldElement.toZMod_one
  have hz : (generator : JacobianPoint C).z.toZMod = 1 := FieldElement.toZMod_one
  have hy : (generator : JacobianPoint C).y.toZMod ^ 2 = 6 := by
    rw [(isOnCurve_iff generator).1 isOnCurve_generator, hx, hz, CurveParams.toZMod_b]
    norm_num
  rw [run, toZMod_x_double hfinite, toZMod_z_double hfinite, hx, hz]
  linear_combination 12 * hy

theorem sub_add_of_generator :
    (generator : JacobianPoint .pallas).double.z ≠ 0 ∧
      ((generator : JacobianPoint .pallas).double.toAffine .exact).x ≠
        ((generator : JacobianPoint .pallas).toAffine .exact).x ∧
      ((generator.double.add generator).sub (generator : JacobianPoint .pallas)).toAffine .exact =
        (generator : JacobianPoint .pallas).double.toAffine .exact ∧
      (generator : JacobianPoint .pallas).double.negate.point =
        -(2 • (generator : JacobianPoint .pallas).point) ∧
      (generator.double.negate.add generator).sub (generator : JacobianPoint .pallas) =
        ⟨0, 0, 0⟩ := by
  have hq : (generator : JacobianPoint .pallas).IsCanonical := isCanonical_generator
  have hqc : (generator : JacobianPoint .pallas).IsOnCurve := isOnCurve_generator
  have hqz : (generator : JacobianPoint .pallas).z.toZMod ≠ 0 := finite_generator
  have hp := isCanonical_double hq
  have hpc := isOnCurve_double hqc
  have hpz := toZMod_z_double_ne_zero CurveParams.pallas.two_ne_zero hqz (affineY_ne_zero hqc hqz)
  have hpoint := point_double hqc
  have hrun := run_double_generator (C := .pallas)
  -- From here on the two are points with these properties, and nothing about them is computed.
  generalize (generator : JacobianPoint .pallas).double = p at *
  generalize (generator : JacobianPoint .pallas) = q at *
  have hx : (p.toAffine .exact).x ≠ (q.toAffine .exact).x := by
    rw [toAffine_x_ne_iff hp hq hpz hqz, ne_eq, ← run_eq_zero_iff hpz hqz, hrun]
    exact CurveParams.pallas.natCast_ne_zero (n := 63) (by decide) (by decide)
  have hne : p.point ≠ -(2 • q.point) := by
    rw [two_nsmul, ← hpoint, ne_eq, eq_neg_iff_add_eq_zero]
    exact point_add_self_ne_zero hpc hpz
  have heq : p.negate.point = -(2 • q.point) := by rw [point_negate hpc, hpoint, two_nsmul]
  have hxneg : (p.negate.toAffine .exact).x ≠ (q.toAffine .exact).x := by
    rw [toAffine_x_ne_iff hp hq hpz hqz] at hx
    rwa [toAffine_x_ne_iff (isCanonical_negate hp) hq hpz hqz, affineX_negate]
  rw [ne_eq, hp.z.toZMod_eq_zero_iff] at hpz
  rw [ne_eq, hq.z.toZMod_eq_zero_iff] at hqz
  exact ⟨hpz, hx, (sub_add_cancels hp hq hpc hqc hpz hqz hx).1 hne, heq,
    (sub_add_cancels (isCanonical_negate hp) hq (isOnCurve_negate hpc) hqc hpz hqz hxneg).2.1 heq⟩

end PallasVesta.JacobianPoint
