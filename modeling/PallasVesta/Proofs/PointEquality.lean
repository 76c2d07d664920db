import PallasVesta.Proofs.AffineCoordinates

namespace PallasVesta

variable {C : CurveParams}

namespace JacobianPoint

section

variable [NeZero C.base.modulus.toNat] (p q : JacobianPoint C)

theorem run_eq_zero_iff_mul_eq : p.run q = 0 ↔ p.x * q.z.square = q.x * p.z.square := by
  rw [← (FieldElement.isCanonical_mul _ _).toZMod_inj (FieldElement.isCanonical_mul _ _),
    FieldElement.toZMod_mul, FieldElement.toZMod_mul, FieldElement.toZMod_square,
    FieldElement.toZMod_square, run, sub_eq_zero, eq_comm]

theorem rise_eq_zero_iff_mul_eq :
    p.rise q = 0 ↔ p.y * (q.z.square * q.z) = q.y * (p.z.square * p.z) := by
  rw [← (FieldElement.isCanonical_mul _ _).toZMod_inj (FieldElement.isCanonical_mul _ _)]
  simp only [FieldElement.toZMod_mul, FieldElement.toZMod_square, ← pow_succ]
  rw [rise, sub_eq_zero, eq_comm]

end

theorem toAffine_cases (p : JacobianPoint C) (normalization : Normalization) :
    p.toAffine normalization = .identity ∨ ∃ x y, p.toAffine normalization = .finite x y := by
  rw [toAffine.eq_def]
  split
  · exact Or.inr ⟨_, _, rfl⟩
  · split
    · exact Or.inl rfl
    · exact Or.inr ⟨_, _, rfl⟩

theorem toAffine_ofCoordinates (x y : FieldElement C.base) (normalization : Normalization) :
    (ofCoordinates x y : JacobianPoint C).toAffine normalization = .finite x y := by
  rw [toAffine.eq_def, ofCoordinates, if_pos rfl]

theorem toAffine_identity (normalization : Normalization) :
    (identity : JacobianPoint C).toAffine normalization = .identity :=
  toAffine_of_z_eq_zero rfl normalization

theorem toAffine_toJacobian (a : AffinePoint C) (normalization : Normalization) :
    a.toJacobian.toAffine normalization = if a.infinity then .identity else a := by
  -- The coordinates beside the flag of an infinite point are lost.
  obtain ⟨x, y, infinity⟩ := a
  cases infinity with
  | false => exact toAffine_ofCoordinates x y normalization
  | true => exact toAffine_identity normalization

theorem toAffine_toJacobian_toAffine (p : JacobianPoint C) (first second : Normalization) :
    (p.toAffine first).toJacobian.toAffine second = p.toAffine first := by
  rcases p.toAffine_cases first with h | ⟨x, y, h⟩
  · rw [h]
    exact toAffine_identity second
  · rw [h]
    exact toAffine_ofCoordinates x y second

section

variable [Fact C.base.modulus.toNat.Prime] {p q : JacobianPoint C} (hp : p.IsCanonical)
  (hq : q.IsCanonical)

include hp in
theorem infinity_toAffine_iff : (p.toAffine .exact).infinity = true ↔ p.z = 0 := by
  rw [← toAffine_eq_identity_iff hp]
  constructor
  · intro h
    rcases p.toAffine_cases .exact with hidentity | ⟨x, y, hfinite⟩
    · exact hidentity
    · rw [hfinite] at h
      nomatch h
  · intro h
    rw [h]
    rfl

include hp hq in
theorem toAffine_eq_iff_run_rise (hpz : p.z ≠ 0) (hqz : q.z ≠ 0) :
    p.toAffine .exact = q.toAffine .exact ↔ p.run q = 0 ∧ p.rise q = 0 := by
  rw [ne_eq, ← hp.z.toZMod_eq_zero_iff] at hpz
  rw [ne_eq, ← hq.z.toZMod_eq_zero_iff] at hqz
  rw [toAffine_eq_iff hp hq hpz hqz, run_eq_zero_iff hpz hqz, rise_eq_zero_iff hpz hqz]

include hp hq in
theorem toAffine_eq_toAffine_iff : p.toAffine .exact = q.toAffine .exact ↔
    p.z = 0 ∧ q.z = 0 ∨ p.z ≠ 0 ∧ q.z ≠ 0 ∧ p.run q = 0 ∧ p.rise q = 0 := by
  by_cases hpz : p.z = 0
  · rw [toAffine_of_z_eq_zero hpz, eq_comm, toAffine_eq_identity_iff hq]
    simp [hpz]
  · by_cases hqz : q.z = 0
    · rw [toAffine_of_z_eq_zero hqz, toAffine_eq_identity_iff hp]
      simp [hpz, hqz]
    · rw [toAffine_eq_iff_run_rise hp hq hpz hqz]
      simp [hpz, hqz]

end

/-- Two triples have one affine form exactly if both are the identity, or both are finite and the
coordinates agree with the powers of `z` multiplied across. Only the identity goes to infinity, and
affine forms are their own: lifting and normalizing again changes none of them. -/
theorem toAffine_decides_equality (C : CurveParams) [C.InCycle] :
    (∀ p q : JacobianPoint C, p.IsCanonical → q.IsCanonical →
      (p.toAffine .exact = q.toAffine .exact ↔ p.z = 0 ∧ q.z = 0 ∨
        p.z ≠ 0 ∧ q.z ≠ 0 ∧ p.x * q.z.square = q.x * p.z.square ∧
          p.y * (q.z.square * q.z) = q.y * (p.z.square * p.z))) ∧
    (∀ p : JacobianPoint C, p.IsCanonical →
      ((p.toAffine .exact).infinity = true ↔ p.z = 0) ∧
      (p.z = 0 → p.toAffine .exact = ⟨1, 1, true⟩)) ∧
    (∀ p : JacobianPoint C, (p.toAffine .exact).toJacobian.toAffine .exact = p.toAffine .exact) ∧
    ∀ a : AffinePoint C,
      a.toJacobian.toAffine .exact = if a.infinity then ⟨1, 1, true⟩ else a := by
  refine ⟨?_, ?_, ?_, ?_⟩
  · intro p q hp hq
    rw [toAffine_eq_toAffine_iff hp hq, run_eq_zero_iff_mul_eq, rise_eq_zero_iff_mul_eq]
  · intro p hp
    exact ⟨infinity_toAffine_iff hp, fun hz => toAffine_of_z_eq_zero hz _⟩
  · intro p
    exact p.toAffine_toJacobian_toAffine _ _
  · intro a
    exact toAffine_toJacobian a _

theorem toAffine_off_curve_rescaled :
    (⟨1, 1, 1⟩ : JacobianPoint .pallas).IsCanonical ∧
      (⟨⟨.ofLimb 4⟩, ⟨.ofLimb 8⟩, ⟨.ofLimb 2⟩⟩ : JacobianPoint .pallas).IsCanonical ∧
      (⟨1, 1, 1⟩ : JacobianPoint .pallas).toAffine .exact =
        (⟨⟨.ofLimb 4⟩, ⟨.ofLimb 8⟩, ⟨.ofLimb 2⟩⟩ : JacobianPoint .pallas).toAffine .exact ∧
      ((⟨1, 1, 1⟩ : JacobianPoint .pallas).toAffine .exact).infinity ≠ true :=
  have hone : (⟨1, 1, 1⟩ : JacobianPoint .pallas).IsCanonical :=
    have h : (1 : Fp).IsCanonical := FieldElement.isCanonical_one (by decide)
    ⟨h, h, h⟩
  have hsmall (n : Limb) : (⟨.ofLimb n⟩ : Fp).IsCanonical := by
    rw [FieldElement.IsCanonical, UInt256.toNat_ofLimb]
    exact Nat.lt_trans n.toNat_lt (by decide)
  have htwo : (⟨⟨.ofLimb 4⟩, ⟨.ofLimb 8⟩, ⟨.ofLimb 2⟩⟩ : JacobianPoint .pallas).IsCanonical :=
    ⟨hsmall 4, hsmall 8, hsmall 2⟩
  have h := toAffine_decides_equality .pallas
  ⟨hone, htwo, (h.1 _ _ hone htwo).2 (Or.inr (by decide +kernel)),
    fun hinfinity => absurd ((h.2.1 _ hone).1.1 hinfinity) (by decide)⟩

end JacobianPoint

end PallasVesta
