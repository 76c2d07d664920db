import PallasVesta.Proofs.PointEquality

namespace PallasVesta

variable {C : CurveParams}

theorem FieldElement.ofZMod_neg {M : FieldParams} [NeZero M.modulus.toNat]
    (x : ZMod M.modulus.toNat) : (ofZMod (-x) : FieldElement M) = -ofZMod x := by
  rw [(isCanonical_neg _).ofZMod_eq_iff, toZMod_neg, toZMod_ofZMod]

def AffinePoint.negate (a : AffinePoint C) : AffinePoint C :=
  if a.infinity then .identity else .finite a.x (-a.y)

theorem AffinePoint.negate_finite (x y : FieldElement C.base) :
    (finite x y : AffinePoint C).negate = finite x (-y) := rfl

namespace JacobianPoint

/-- The triple for the same affine point with the opposite `z`. -/
def flipSign (p : JacobianPoint C) : JacobianPoint C := ⟨p.x, -p.y, -p.z⟩

@[simp]
theorem x_negate (p : JacobianPoint C) : p.negate.x = p.x := rfl

@[simp]
theorem y_negate (p : JacobianPoint C) : p.negate.y = -p.y := rfl

@[simp]
theorem z_negate (p : JacobianPoint C) : p.negate.z = p.z := rfl

@[simp]
theorem x_flipSign (p : JacobianPoint C) : p.flipSign.x = p.x := rfl

@[simp]
theorem y_flipSign (p : JacobianPoint C) : p.flipSign.y = -p.y := rfl

@[simp]
theorem z_flipSign (p : JacobianPoint C) : p.flipSign.z = -p.z := rfl

theorem IsCanonical.eq_iff {p q : JacobianPoint C} (hp : p.IsCanonical) (hq : q.IsCanonical) :
    p = q ↔ p.x.toZMod = q.x.toZMod ∧ p.y.toZMod = q.y.toZMod ∧ p.z.toZMod = q.z.toZMod := by
  rw [hp.x.toZMod_inj hq.x, hp.y.toZMod_inj hq.y, hp.z.toZMod_inj hq.z]
  obtain ⟨x, y, z⟩ := p
  obtain ⟨x', y', z'⟩ := q
  exact iff_of_eq (mk.injEq x y z x' y' z')

section

variable [NeZero C.base.modulus.toNat] (p q : JacobianPoint C)

theorem isCanonical_flipSign {p : JacobianPoint C} (hp : p.IsCanonical) : p.flipSign.IsCanonical :=
  ⟨hp.x, FieldElement.isCanonical_neg _, FieldElement.isCanonical_neg _⟩

/-- Exchanging the operands changes the sign of the run and of the rise. -/
theorem add_swap : q.add p = (p.add q).flipSign := by
  rw [(isCanonical_add q p).eq_iff (isCanonical_flipSign (isCanonical_add p q))]
  simp only [x_flipSign, y_flipSign, z_flipSign, FieldElement.toZMod_neg, toZMod_x_add,
    toZMod_y_add, toZMod_z_add, run, rise]
  exact ⟨by ring, by ring, by ring⟩

theorem add_negate_negate : p.negate.add q.negate = (p.add q).negate := by
  rw [(isCanonical_add p.negate q.negate).eq_iff (isCanonical_negate (isCanonical_add p q))]
  simp only [x_negate, y_negate, z_negate, FieldElement.toZMod_neg, toZMod_x_add, toZMod_y_add,
    toZMod_z_add, run, rise]
  exact ⟨by ring, by ring, trivial⟩

theorem sub_swap : q.sub p = (p.sub q).negate.flipSign := by
  rw [(isCanonical_sub q p).eq_iff
    (isCanonical_flipSign (isCanonical_negate (isCanonical_sub p q)))]
  simp only [sub, x_negate, y_negate, z_negate, x_flipSign, y_flipSign, z_flipSign,
    FieldElement.toZMod_neg, toZMod_x_add, toZMod_y_add, toZMod_z_add, run, rise]
  exact ⟨by ring, by ring, by ring⟩

variable {p}

theorem isCanonical_double_of_finite (hz : p.isIdentity = false) : p.double.IsCanonical := by
  rw [double, if_neg (by rw [hz]; exact Bool.false_ne_true)]
  exact ⟨FieldElement.isCanonical_sub _ _, FieldElement.isCanonical_sub _ _,
    FieldElement.isCanonical_double _⟩

theorem double_negate (hz : p.isIdentity = false) : p.negate.double = p.double.negate.flipSign := by
  have hnegate : p.negate.isIdentity = false := hz
  rw [(isCanonical_double_of_finite hnegate).eq_iff
    (isCanonical_flipSign (isCanonical_negate (isCanonical_double_of_finite hz)))]
  simp only [x_negate, y_negate, z_negate, x_flipSign, y_flipSign, z_flipSign,
    FieldElement.toZMod_neg, toZMod_x_double, toZMod_y_double, toZMod_z_double, hnegate, hz]
  exact ⟨by ring, by ring, by ring⟩

end

section

variable [Fact C.base.modulus.toNat.Prime] {p : JacobianPoint C}

theorem toAffine_flipSign (hp : p.IsCanonical) :
    p.flipSign.toAffine .exact = p.toAffine .exact := by
  have hflip := isCanonical_flipSign hp
  by_cases hz : p.z.toZMod = 0
  · have hflipz : p.flipSign.z.toZMod = 0 := by rw [flipSign, FieldElement.toZMod_neg, hz, neg_zero]
    rw [toAffine_of_z_eq_zero (hp.z.toZMod_eq_zero_iff.1 hz),
      toAffine_of_z_eq_zero (hflip.z.toZMod_eq_zero_iff.1 hflipz)]
  · have hflipz : p.flipSign.z.toZMod ≠ 0 := by
      rwa [flipSign, FieldElement.toZMod_neg, neg_ne_zero]
    rw [toAffine_eq_iff hflip hp hflipz hz]
    simp only [affineX, affineY, flipSign, FieldElement.toZMod_neg]
    rw [neg_sq, Odd.neg_pow (by decide), neg_div_neg_eq]
    exact ⟨rfl, rfl⟩

theorem toAffine_negate (hp : p.IsCanonical) :
    p.negate.toAffine .exact = (p.toAffine .exact).negate := by
  by_cases hz : p.z.toZMod = 0
  · have hzero : p.z = 0 := hp.z.toZMod_eq_zero_iff.1 hz
    rw [toAffine_of_z_eq_zero hzero, toAffine_of_z_eq_zero (p := p.negate) hzero]
    rfl
  · rw [toAffine_of_z_ne_zero hp hz, toAffine_of_z_ne_zero (isCanonical_negate hp) hz,
      affineX_negate, affineY_negate, AffinePoint.negate_finite, FieldElement.ofZMod_neg]

theorem toAffine_double_negate (p : JacobianPoint C) :
    p.negate.double.toAffine .exact = p.double.negate.toAffine .exact := by
  cases hz : p.isIdentity with
  | false =>
      rw [double_negate hz,
        toAffine_flipSign (isCanonical_negate (isCanonical_double_of_finite hz))]
  | true => rw [double_eq_self hz, double_eq_self (p := p.negate) hz]

end

/-- The formulas are not symmetric in their operands, but exchanging these changes the signs of `y`
and `z` only, and negating them that of `y`. So both orders of a sum are one point, the two
differences are negations of each other, and the double of a negation is the negation of the
double. -/
theorem formulas_respect_signs {C : CurveParams} [C.InCycle] (p q : JacobianPoint C) :
    (∀ x y z, p.add q = ⟨x, y, z⟩ →
      q.add p = ⟨x, -y, -z⟩ ∧ p.negate.add q.negate = ⟨x, -y, z⟩) ∧
    (q.add p).toAffine .exact = (p.add q).toAffine .exact ∧
    (q.sub p).toAffine .exact = ((p.sub q).toAffine .exact).negate ∧
    p.negate.double.toAffine .exact = p.double.negate.toAffine .exact := by
  refine ⟨?_, ?_, ?_, p.toAffine_double_negate⟩
  · intro x y z h
    rw [add_swap, add_negate_negate, h]
    exact ⟨rfl, rfl⟩
  · rw [add_swap, toAffine_flipSign (isCanonical_add p q)]
  · rw [sub_swap, toAffine_flipSign (isCanonical_negate (isCanonical_sub p q)),
      toAffine_negate (isCanonical_sub p q)]

theorem signs_of_small_triples :
    let p : JacobianPoint .pallas := ⟨0, 1, 1⟩
    let q : JacobianPoint .pallas := ⟨1, ⟨.ofLimb 2⟩, 1⟩
    p.add q = ⟨0, -⟨.ofLimb 8⟩, ⟨.ofLimb 2⟩⟩ ∧
      q.add p = ⟨0, - -⟨.ofLimb 8⟩, -⟨.ofLimb 2⟩⟩ ∧
      p.negate.add q.negate = ⟨0, - -⟨.ofLimb 8⟩, ⟨.ofLimb 2⟩⟩ ∧
      (q.add p).toAffine .exact = (p.add q).toAffine .exact ∧
      (p.sub p).toAffine .exact = .identity ∧
      (p.sub p).toAffine .exact = ((p.sub p).toAffine .exact).negate ∧
      q.negate.double.toAffine .exact = q.double.negate.toAffine .exact := by
  intro p q
  have hlimb {n : Limb} {m : Nat} (h : n.toNat = m) :
      (⟨.ofLimb n⟩ : FieldElement CurveParams.pallas.base).toZMod = m := by
    rw [FieldElement.toZMod, UInt256.toNat_ofLimb, h]
  have htwo := hlimb (n := 2) (m := 2) rfl
  have height := hlimb (n := 8) (m := 8) rfl
  have hresult : (⟨0, -⟨.ofLimb 8⟩, ⟨.ofLimb 2⟩⟩ : JacobianPoint .pallas).IsCanonical :=
    ⟨FieldElement.isCanonical_zero, FieldElement.isCanonical_neg _, by
      rw [FieldElement.IsCanonical]
      decide⟩
  have hsum : p.add q = ⟨0, -⟨.ofLimb 8⟩, ⟨.ofLimb 2⟩⟩ := by
    rw [(isCanonical_add p q).eq_iff hresult, toZMod_x_add, toZMod_y_add, toZMod_z_add, run, rise]
    norm_num [p, q, htwo, height]
  have hdifference : (p.sub p).z = 0 := by
    rw [← (isCanonical_sub p p).z.toZMod_eq_zero_iff, sub, toZMod_z_add, run]
    norm_num [p, negate]
  obtain ⟨hsigns, horder, -, -⟩ := formulas_respect_signs p q
  obtain ⟨hswapped, hnegated⟩ := hsigns _ _ _ hsum
  exact ⟨hsum, hswapped, hnegated, horder, toAffine_of_z_eq_zero hdifference _,
    (formulas_respect_signs p p).2.2.1, (formulas_respect_signs q q).2.2.2⟩

end JacobianPoint

end PallasVesta
