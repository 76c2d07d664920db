import PallasVesta.Proofs.PointEquality

namespace PallasVesta.JacobianPoint

variable {C : CurveParams}

theorem toAffine_of_z_eq_one {p : JacobianPoint C} (hz : p.z = 1) (normalization : Normalization) :
    p.toAffine normalization = .finite p.x p.y := by
  rw [toAffine.eq_def, if_pos hz]

theorem exists_toAffine_eq (p : JacobianPoint C) (first second : Normalization) :
    ∃ y, p.toAffine first = { p.toAffine second with y } := by
  by_cases hone : p.z = 1
  · rw [toAffine_of_z_eq_one hone, toAffine_of_z_eq_one hone]
    exact ⟨_, rfl⟩
  · rw [toAffine.eq_def, toAffine.eq_def, if_neg hone, if_neg hone]
    cases p.z.inverse with
    | error cause => exact ⟨_, rfl⟩
    | ok inverse => exact ⟨_, rfl⟩

section

variable [Fact C.base.modulus.toNat.Prime] {p : JacobianPoint C}

def compatibleY (p : JacobianPoint C) : ZMod C.base.modulus.toNat := p.x.toZMod / p.z.toZMod ^ 3

theorem toAffine_compatible_of_z_ne_zero (hz : p.z.toZMod ≠ 0) (hone : p.z ≠ 1) :
    p.toAffine .compatible = .finite (.ofZMod p.affineX) (.ofZMod p.compatibleY) := by
  obtain ⟨inverse, -, hinverse, hok⟩ := FieldElement.exists_inverse hz
  rw [toAffine, if_neg hone, hok, (FieldElement.isCanonical_mul _ _).ofZMod_eq_iff.2,
    (FieldElement.isCanonical_mul _ _).ofZMod_eq_iff.2]
  · simp only [FieldElement.toZMod_mul, FieldElement.toZMod_square, hinverse, compatibleY]
    field_simp
  · simp only [FieldElement.toZMod_mul, FieldElement.toZMod_square, hinverse, affineX]
    field_simp

theorem compatibleY_eq_affineY_iff (hz : p.z.toZMod ≠ 0) :
    p.compatibleY = p.affineY ↔ p.x.toZMod = p.y.toZMod := by
  rw [compatibleY, affineY, div_left_inj' (pow_ne_zero 3 hz)]

theorem compatibleY_eq_neg_affineY_iff (hz : p.z.toZMod ≠ 0) :
    p.compatibleY = -p.affineY ↔ p.x.toZMod = -p.y.toZMod := by
  rw [compatibleY, affineY, ← neg_div, div_left_inj' (pow_ne_zero 3 hz)]

/-- A point beside one of the curve is on it too exactly if their second coordinates agree up to
sign. -/
theorem isOnCurve_finite_affineX_iff (hp : p.IsOnCurve) (hz : p.z.toZMod ≠ 0)
    (y : ZMod C.base.modulus.toNat) :
    (AffinePoint.finite (.ofZMod p.affineX) (.ofZMod y) : AffinePoint C).isOnCurve = true ↔
      y = p.affineY ∨ y = -p.affineY := by
  rw [AffinePoint.isOnCurve_finite_iff, FieldElement.toZMod_ofZMod, FieldElement.toZMod_ofZMod,
    ← affine_equation hp hz, sq_eq_sq_iff_eq_or_eq_neg]

theorem toAffine_compatible_eq_exact_iff (hp : p.IsCanonical) :
    p.toAffine .compatible = p.toAffine .exact ↔ p.z = 0 ∨ p.z = 1 ∨ p.x = p.y := by
  by_cases hzero : p.z = 0
  · simp [toAffine_of_z_eq_zero, hzero]
  by_cases hone : p.z = 1
  · simp [toAffine_of_z_eq_one, hone]
  have hz : p.z.toZMod ≠ 0 := by rwa [ne_eq, hp.z.toZMod_eq_zero_iff]
  rw [or_iff_right hzero, or_iff_right hone, ← hp.x.toZMod_inj hp.y,
    ← compatibleY_eq_affineY_iff hz, toAffine_compatible_of_z_ne_zero hz hone,
    toAffine_of_z_ne_zero hp hz]
  constructor
  · intro h
    exact FieldElement.ofZMod_injective (congrArg AffinePoint.y h)
  · intro h
    rw [h]

theorem isOnCurve_toAffine_compatible_iff (hp : p.IsCanonical) (hcurve : p.IsOnCurve) :
    (p.toAffine .compatible).isOnCurve = true ↔
      p.z = 0 ∨ p.z = 1 ∨ p.x = p.y ∨ p.x = -p.y := by
  by_cases hzero : p.z = 0
  · rw [toAffine_of_z_eq_zero hzero]
    exact ⟨fun _ => .inl hzero, fun _ => rfl⟩
  by_cases hone : p.z = 1
  · have hexact := isOnCurve_toAffine (Fact.out : Nat.Prime _).one_lt hcurve
    rw [toAffine_of_z_eq_one hone] at hexact ⊢
    exact ⟨fun _ => .inr (.inl hone), fun _ => hexact⟩
  have hz : p.z.toZMod ≠ 0 := by rwa [ne_eq, hp.z.toZMod_eq_zero_iff]
  rw [or_iff_right hzero, or_iff_right hone, toAffine_compatible_of_z_ne_zero hz hone,
    isOnCurve_finite_affineX_iff hcurve hz, compatibleY_eq_affineY_iff hz,
    compatibleY_eq_neg_affineY_iff hz, ← FieldElement.toZMod_neg, hp.x.toZMod_inj hp.y,
    hp.x.toZMod_inj (FieldElement.isCanonical_neg _)]

end

/-- The compatible normalization differs from the exact one in the second coordinate alone, and
there on every finite triple but those with `z` one or `x = y`. Of a triple of the curve it gives a
point of the curve just for these and for those with `x = -y`. -/
theorem toAffine_compatible_against_exact {C : CurveParams} [C.InCycle] {p : JacobianPoint C}
    (hp : p.IsCanonical) :
    (p.toAffine .compatible).x = (p.toAffine .exact).x ∧
    (p.toAffine .compatible).infinity = (p.toAffine .exact).infinity ∧
    (p.toAffine .compatible = p.toAffine .exact ↔ p.z = 0 ∨ p.z = 1 ∨ p.x = p.y) ∧
    (p.IsOnCurve → ((p.toAffine .compatible).isOnCurve = true ↔
      p.z = 0 ∨ p.z = 1 ∨ p.x = p.y ∨ p.x = -p.y)) := by
  refine ⟨?_, ?_, toAffine_compatible_eq_exact_iff hp, isOnCurve_toAffine_compatible_iff hp⟩
  all_goals
    obtain ⟨y, hy⟩ := p.exists_toAffine_eq .compatible .exact
    rw [hy]

def rescaledGenerator : JacobianPoint .pallas :=
  ⟨⟨.ofLimb 4⟩,
    ⟨⟨0x02f43e57576955d5, 0x145713ad7e035036, 0x9efd4f831bc772a4, 0x1ba5ad1850949be2⟩⟩,
    ⟨.ofLimb 2⟩⟩

def oppositeCoordinates : JacobianPoint .pallas :=
  ⟨⟨⟨0xffa5a8c580000001, 0x71e57f7cb26acf96, 0x5555555555555555, 0x3555555555555555⟩⟩,
    ⟨⟨0x9987882780000000, 0xb061197f56e22984, 0xaaaaaaaaaaaaaaaa, 0x0aaaaaaaaaaaaaaa⟩⟩,
    ⟨⟨0xa6392cd1cc7cdc75, 0x7e5edbcc0d30b320, 0x0dfa9c52bb3ed263, 0x2493739b2c586dea⟩⟩⟩

/-- The generator leaves the curve with `z` two. The other triple stays on it, but at another
point. -/
theorem toAffine_compatible_off_and_on_curve :
    rescaledGenerator.IsCanonical ∧ rescaledGenerator.IsOnCurve ∧
      (rescaledGenerator.toAffine .compatible).isOnCurve ≠ true ∧
      oppositeCoordinates.IsCanonical ∧ oppositeCoordinates.IsOnCurve ∧
      (oppositeCoordinates.toAffine .compatible).isOnCurve = true ∧
      oppositeCoordinates.toAffine .compatible ≠ oppositeCoordinates.toAffine .exact :=
  have hbelow {a : Fp} (h : a.value.toNat < FieldParams.fp.modulus.toNat) : a.IsCanonical := h
  have hrescaled : rescaledGenerator.IsCanonical :=
    ⟨hbelow (by decide), hbelow (by decide), hbelow (by decide)⟩
  have hrescaledCurve : rescaledGenerator.IsOnCurve := isOnCurve_of_modEq (by decide +kernel)
  have hopposite : oppositeCoordinates.IsCanonical :=
    ⟨hbelow (by decide), hbelow (by decide), hbelow (by decide)⟩
  have hoppositeCurve : oppositeCoordinates.IsOnCurve :=
    isOnCurve_of_modEq (by decide +kernel)
  have hoff := toAffine_compatible_against_exact hrescaled
  have hon := toAffine_compatible_against_exact hopposite
  ⟨hrescaled, hrescaledCurve, (hoff.2.2.2 hrescaledCurve).not.2 (by decide +kernel), hopposite,
    hoppositeCurve, (hon.2.2.2 hoppositeCurve).2 (by decide +kernel),
    hon.2.2.1.not.2 (by decide +kernel)⟩

end PallasVesta.JacobianPoint
