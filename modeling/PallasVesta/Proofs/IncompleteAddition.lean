import PallasVesta.Proofs.GroupLaw

namespace PallasVesta

variable {C : CurveParams}

/-- The sum of two finite points by the chord through them. -/
def AffinePoint.chord (a b : AffinePoint C) : Except ArithmeticError (AffinePoint C) := do
  let slope ← (b.y - a.y).div (b.x - a.x)
  let x := slope.square - a.x - b.x
  return .finite x (slope * (a.x - x) - a.y)

section

variable [Fact C.base.modulus.toNat.Prime]

theorem AffinePoint.exists_chord {a b : AffinePoint C} (hx : a.x.toZMod ≠ b.x.toZMod) :
    ∃ x y : FieldElement C.base, x.IsCanonical ∧ y.IsCanonical ∧
      x.toZMod = ((b.y.toZMod - a.y.toZMod) / (b.x.toZMod - a.x.toZMod)) ^ 2 - a.x.toZMod -
        b.x.toZMod ∧
      y.toZMod = (b.y.toZMod - a.y.toZMod) / (b.x.toZMod - a.x.toZMod) * (a.x.toZMod - x.toZMod) -
        a.y.toZMod ∧
      a.chord b = .ok (.finite x y) := by
  have hrun : (b.x - a.x).toZMod ≠ 0 := by
    rw [FieldElement.toZMod_sub]
    exact sub_ne_zero.2 hx.symm
  obtain ⟨slope, -, hslope, hdiv⟩ := FieldElement.exists_div (b.y - a.y) hrun
  rw [FieldElement.toZMod_sub, FieldElement.toZMod_sub] at hslope
  refine ⟨slope.square - a.x - b.x, slope * (a.x - (slope.square - a.x - b.x)) - a.y,
    FieldElement.isCanonical_sub _ _, FieldElement.isCanonical_sub _ _, ?_, ?_, ?_⟩
  · rw [FieldElement.toZMod_sub, FieldElement.toZMod_sub, FieldElement.toZMod_square, hslope]
  · rw [FieldElement.toZMod_sub, FieldElement.toZMod_mul, FieldElement.toZMod_sub a.x, hslope]
  · rw [chord, hdiv]
    rfl

namespace JacobianPoint

/-- Normalization turns the formulas of addition into the chord, on the curve or not. -/
theorem chord_toAffine (htwo : (2 : ZMod C.base.modulus.toNat) ≠ 0) {p q : JacobianPoint C}
    (hp : p.IsCanonical) (hq : q.IsCanonical) (hpz : p.z.toZMod ≠ 0) (hqz : q.z.toZMod ≠ 0)
    (hx : p.affineX ≠ q.affineX) :
    (p.toAffine .exact).chord (q.toAffine .exact) = .ok ((p.add q).toAffine .exact) := by
  rw [toAffine_of_z_ne_zero hp hpz, toAffine_of_z_ne_zero hq hqz,
    toAffine_of_z_ne_zero (isCanonical_add p q) (toZMod_z_add_ne_zero htwo hpz hqz hx)]
  have hne : (AffinePoint.finite (.ofZMod p.affineX) (.ofZMod p.affineY) : AffinePoint C).x.toZMod ≠
      (AffinePoint.finite (.ofZMod q.affineX) (.ofZMod q.affineY) : AffinePoint C).x.toZMod := by
    rw [AffinePoint.finite, AffinePoint.finite, FieldElement.toZMod_ofZMod,
      FieldElement.toZMod_ofZMod]
    exact hx
  obtain ⟨x, y, hxc, hyc, hX, hY, hchord⟩ := AffinePoint.exists_chord hne
  simp only [AffinePoint.finite, FieldElement.toZMod_ofZMod] at hX hY
  rw [← affineX_add htwo hpz hqz hx] at hX
  rw [hX, ← affineY_add htwo hpz hqz hx] at hY
  rw [hchord, hxc.ofZMod_eq_iff.2 hX, hyc.ofZMod_eq_iff.2 hY]

end JacobianPoint

end

namespace JacobianPoint

variable [C.InCycle] {p q : JacobianPoint C}

theorem add_of_z_eq_zero (hp : p.IsOnCurve) (hq : q.IsOnCurve)
    (hz : p.z.toZMod = 0 ∨ q.z.toZMod = 0) : p.add q = ⟨0, 0, 0⟩ := by
  rw [isOnCurve_iff] at hp hq
  rw [eq_zero_triple_iff (isCanonical_add p q), toZMod_x_add, toZMod_y_add, toZMod_z_add, rise, run]
  rcases hz with hz | hz
  · rw [hz] at hp ⊢
    refine ⟨?_, ?_, ?_⟩
    · linear_combination 4 * q.z.toZMod ^ 6 * hp
    · linear_combination 8 * p.y.toZMod * q.z.toZMod ^ 9 * hp
    · ring
  · rw [hz] at hq ⊢
    refine ⟨?_, ?_, ?_⟩
    · linear_combination 4 * p.z.toZMod ^ 6 * hq
    · linear_combination -8 * q.y.toZMod * p.z.toZMod ^ 9 * hq
    · ring

theorem add_of_rise_eq_zero (hrun : p.run q = 0) (hrise : p.rise q = 0) : p.add q = ⟨0, 0, 0⟩ := by
  rw [eq_zero_triple_iff (isCanonical_add p q), toZMod_x_add, toZMod_y_add, toZMod_z_add, hrun,
    hrise]
  refine ⟨?_, ?_, ?_⟩
  · ring
  · ring
  · ring

theorem add_of_run_eq_zero (hrun : p.run q = 0) (hrise : p.rise q ≠ 0) :
    (p.add q).z.toZMod = 0 ∧ (p.add q).x.toZMod ≠ 0 := by
  have hfour : (4 : ZMod C.base.modulus.toNat) ≠ 0 := C.natCast_ne_zero (by decide) (by decide)
  have hx : (p.add q).x.toZMod = 4 * p.rise q ^ 2 := by
    rw [toZMod_x_add, hrun]
    ring
  rw [toZMod_z_add, hrun, mul_zero, mul_zero, hx]
  exact ⟨rfl, mul_ne_zero hfour (pow_ne_zero 2 hrise)⟩

theorem add_eq_zero_triple_iff (hp : p.IsOnCurve) (hq : q.IsOnCurve) : p.add q = ⟨0, 0, 0⟩ ↔
    (p.z.toZMod = 0 ∨ q.z.toZMod = 0) ∨ p.run q = 0 ∧ p.rise q = 0 := by
  constructor
  · intro h
    by_cases hz : p.z.toZMod = 0 ∨ q.z.toZMod = 0
    · exact Or.inl hz
    · rw [not_or] at hz
      rw [eq_zero_triple_iff (isCanonical_add p q)] at h
      have hrun : p.run q = 0 := by
        have hzero := h.2.2
        rw [toZMod_z_add, mul_eq_zero_iff_left C.two_ne_zero,
          mul_eq_zero_iff_left (mul_ne_zero hz.1 hz.2)] at hzero
        exact hzero
      refine Or.inr ⟨hrun, ?_⟩
      by_contra hrise
      exact (add_of_run_eq_zero hrun hrise).2 h.1
  · rintro (hz | ⟨hrun, hrise⟩)
    · exact add_of_z_eq_zero hp hq hz
    · exact add_of_rise_eq_zero hrun hrise

theorem point_eq_iff_run_rise (hp : p.IsOnCurve) (hq : q.IsOnCurve) (hpz : p.z.toZMod ≠ 0)
    (hqz : q.z.toZMod ≠ 0) : p.point = q.point ↔ p.run q = 0 ∧ p.rise q = 0 := by
  rw [point_eq_iff hp hq hpz hqz, run_eq_zero_iff hpz hqz, rise_eq_zero_iff hpz hqz]

theorem point_add_point_of_run_eq_zero (hp : p.IsOnCurve) (hq : q.IsOnCurve)
    (hpz : p.z.toZMod ≠ 0) (hqz : q.z.toZMod ≠ 0) (hrun : p.run q = 0) (hrise : p.rise q ≠ 0) :
    p.point + q.point = 0 := by
  rw [run_eq_zero_iff hpz hqz] at hrun
  rw [ne_eq, rise_eq_zero_iff hpz hqz] at hrise
  rcases (affineX_eq_iff hp hq hpz hqz).1 hrun with heq | hneg
  · exact absurd ((point_eq_iff hp hq hpz hqz).1 heq).2 hrise
  · rw [hneg, neg_add_cancel]

theorem point_add_self_ne_zero (hp : p.IsOnCurve) (hz : p.z.toZMod ≠ 0) :
    p.point + p.point ≠ 0 := by
  rw [← point_double hp, ne_eq, point_eq_zero_iff (isOnCurve_double hp)]
  exact toZMod_z_double_ne_zero C.two_ne_zero hz (affineY_ne_zero hp hz)

/-- Addition is the group law on a pair exactly if both points are the identity, or both are finite
and they are not equal. -/
theorem point_add_iff (hp : p.IsOnCurve) (hq : q.IsOnCurve) :
    (p.add q).point = p.point + q.point ↔
      p.z.toZMod = 0 ∧ q.z.toZMod = 0 ∨
        p.z.toZMod ≠ 0 ∧ q.z.toZMod ≠ 0 ∧ ¬(p.run q = 0 ∧ p.rise q = 0) := by
  have hzero (h : p.add q = ⟨0, 0, 0⟩) : (p.add q).point = 0 := by
    rw [h]
    exact point_of_z_eq_zero FieldElement.toZMod_zero
  by_cases hpz : p.z.toZMod = 0
  · rw [hzero (add_of_z_eq_zero hp hq (Or.inl hpz)), point_of_z_eq_zero hpz, zero_add, eq_comm,
      point_eq_zero_iff hq]
    simp [hpz]
  · by_cases hqz : q.z.toZMod = 0
    · rw [hzero (add_of_z_eq_zero hp hq (Or.inr hqz)), point_of_z_eq_zero hqz, add_zero, eq_comm,
        point_eq_zero_iff hp]
      simp [hpz, hqz]
    · by_cases hrun : p.run q = 0
      · by_cases hrise : p.rise q = 0
        · have hsame : p.point = q.point :=
            (point_eq_iff_run_rise hp hq hpz hqz).2 ⟨hrun, hrise⟩
          rw [hzero (add_of_rise_eq_zero hrun hrise), ← hsame]
          simp [hpz, hrun, hrise, (point_add_self_ne_zero hp hpz).symm]
        · rw [point_add_point_of_run_eq_zero hp hq hpz hqz hrun hrise,
            point_eq_zero_iff (isOnCurve_add hp hq)]
          simp [hpz, hqz, hrise, (add_of_run_eq_zero hrun hrise).1]
      · have hx : p.affineX ≠ q.affineX := by rwa [ne_eq, ← run_eq_zero_iff hpz hqz]
        rw [point_add hp hq hpz hqz hx]
        simp [hpz, hqz, hrun]

theorem point_add_of_ne (hp : p.IsOnCurve) (hq : q.IsOnCurve) (hpne : p.point ≠ 0)
    (hqne : q.point ≠ 0) (hne : p.point ≠ q.point) : (p.add q).point = p.point + q.point := by
  rw [ne_eq, point_eq_zero_iff hp] at hpne
  rw [ne_eq, point_eq_zero_iff hq] at hqne
  rw [ne_eq, point_eq_iff_run_rise hp hq hpne hqne] at hne
  exact (point_add_iff hp hq).2 (Or.inr ⟨hpne, hqne, hne⟩)

/-- All that addition does on triples of the curve: the chord, a point and its negation, the pairs
that give three zeros, and with them all pairs on which it is the group law. -/
theorem addition_failure_map (hp : p.IsCanonical) (hq : q.IsCanonical) (hpc : p.IsOnCurve)
    (hqc : q.IsOnCurve) :
    (p.z ≠ 0 → q.z ≠ 0 → (p.toAffine .exact).x ≠ (q.toAffine .exact).x →
      (p.add q).z ≠ 0 ∧
        (p.toAffine .exact).chord (q.toAffine .exact) = .ok ((p.add q).toAffine .exact)) ∧
    (p.z ≠ 0 → q.z ≠ 0 → q.toAffine .exact = p.negate.toAffine .exact →
      q.toAffine .exact ≠ p.toAffine .exact → (p.add q).z = 0 ∧ (p.add q).x ≠ 0) ∧
    (p.add q = ⟨0, 0, 0⟩ ↔
      p.z = 0 ∨ q.z = 0 ∨ p.z ≠ 0 ∧ q.z ≠ 0 ∧ p.toAffine .exact = q.toAffine .exact) ∧
    ((p.add q).toAffine .exact = .ofPoint (p.point + q.point) ↔
      p.z = 0 ∧ q.z = 0 ∨ p.z ≠ 0 ∧ q.z ≠ 0 ∧ p.toAffine .exact ≠ q.toAffine .exact) := by
  have hadd := isCanonical_add p q
  have hsame (hpz : p.z.toZMod ≠ 0) (hqz : q.z.toZMod ≠ 0) :
      p.toAffine .exact = q.toAffine .exact ↔ p.run q = 0 ∧ p.rise q = 0 := by
    rw [toAffine_eq_iff hp hq hpz hqz, run_eq_zero_iff hpz hqz, rise_eq_zero_iff hpz hqz]
  simp only [ne_eq, ← hp.z.toZMod_eq_zero_iff, ← hq.z.toZMod_eq_zero_iff,
    ← hadd.z.toZMod_eq_zero_iff, ← hadd.x.toZMod_eq_zero_iff]
  refine ⟨?_, ?_, ?_, ?_⟩
  · intro hpz hqz hx
    rw [← ne_eq, toAffine_x_ne_iff hp hq hpz hqz] at hx
    exact ⟨toZMod_z_add_ne_zero C.two_ne_zero hpz hqz hx,
      chord_toAffine C.two_ne_zero hp hq hpz hqz hx⟩
  · intro hpz hqz hneg hne
    rw [toAffine_eq_iff hq (isCanonical_negate hp) hqz hpz] at hneg
    rw [eq_comm, hsame hpz hqz] at hne
    have hrun : p.run q = 0 := (run_eq_zero_iff hpz hqz).2 hneg.1.symm
    exact add_of_run_eq_zero hrun fun hrise => hne ⟨hrun, hrise⟩
  · rw [add_eq_zero_triple_iff hpc hqc, or_assoc]
    by_cases hpz : p.z.toZMod = 0
    · simp [hpz]
    · by_cases hqz : q.z.toZMod = 0
      · simp [hqz]
      · simp [hpz, hqz, hsame hpz hqz]
  · rw [toAffine_eq_ofPoint hadd (isOnCurve_add hpc hqc), AffinePoint.ofPoint_injective.eq_iff,
      point_add_iff hpc hqc]
    by_cases hpz : p.z.toZMod = 0
    · simp [hpz]
    · by_cases hqz : q.z.toZMod = 0
      · simp [hpz, hqz]
      · simp [hpz, hqz, hsame hpz hqz]

theorem generator_add_endomorphism_image :
    (generator : JacobianPoint .pallas).IsCanonical ∧
      (generator : JacobianPoint .pallas).IsOnCurve ∧
      (ofCoordinates ⟨CurveParams.pallas.endoBase⟩ ⟨CurveParams.pallas.generatorY⟩ :
        JacobianPoint .pallas).IsOnCurve ∧
      ((generator : JacobianPoint .pallas).add
        (ofCoordinates ⟨CurveParams.pallas.endoBase⟩ ⟨CurveParams.pallas.generatorY⟩)).z ≠ 0 ∧
      ((generator : JacobianPoint .pallas).add generator.negate).z = 0 ∧
      ((generator : JacobianPoint .pallas).add generator.negate).x ≠ 0 :=
  have himage : (ofCoordinates ⟨CurveParams.pallas.endoBase⟩ ⟨CurveParams.pallas.generatorY⟩ :
      JacobianPoint .pallas).IsOnCurve := isOnCurve_of_modEq (by decide +kernel)
  have hcanonical : (ofCoordinates ⟨CurveParams.pallas.endoBase⟩ ⟨CurveParams.pallas.generatorY⟩ :
      JacobianPoint .pallas).IsCanonical :=
    ⟨by rw [FieldElement.IsCanonical]; decide, by rw [FieldElement.IsCanonical]; decide,
      FieldElement.isCanonical_one (by decide)⟩
  have hchord := addition_failure_map isCanonical_generator hcanonical isOnCurve_generator himage
  have hnegation := addition_failure_map isCanonical_generator
    (isCanonical_negate isCanonical_generator) isOnCurve_generator
    (isOnCurve_negate isOnCurve_generator)
  have hfinite : (1 : Fp) ≠ 0 := by decide
  ⟨isCanonical_generator, isOnCurve_generator, himage,
    (hchord.1 hfinite hfinite (by decide +kernel)).1,
    hnegation.2.1 hfinite hfinite rfl (by decide +kernel)⟩

end JacobianPoint

end PallasVesta
