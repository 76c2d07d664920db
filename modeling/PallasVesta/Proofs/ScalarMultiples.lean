import Mathlib.GroupTheory.OrderOfElement
import PallasVesta.Proofs.BinaryDigits
import PallasVesta.Proofs.GeneratorOrder

namespace PallasVesta.JacobianPoint

variable {C : CurveParams} [C.InCycle]

theorem smul_eq_zero_iff {P : C.curve.Point} (hr : C.scalar.modulus.toNat • P = 0) {n : Nat}
    (hn : n < C.scalar.modulus.toNat) : n • P = 0 ↔ n = 0 ∨ P = 0 := by
  constructor
  · intro h
    by_cases hP : P = 0
    · exact Or.inr hP
    · have horder : addOrderOf P = C.scalar.modulus.toNat := addOrderOf_eq_prime hr hP
      rw [← addOrderOf_dvd_iff_nsmul_eq_zero, horder] at h
      exact Or.inl (Nat.eq_zero_of_dvd_of_lt h hn)
  · rintro (rfl | rfl)
    · exact zero_nsmul P
    · exact nsmul_zero n

/-- The state of the loop after `i` bits with the value `n`. -/
structure Accumulates (P : C.curve.Point) (n i : Nat) (state : JacobianPoint C × JacobianPoint C) :
    Prop where
  acc_canonical : state.1.IsCanonical
  acc_onCurve : state.1.IsOnCurve
  acc_point : state.1.point = n • P
  power_canonical : state.2.IsCanonical
  power_onCurve : state.2.IsOnCurve
  power_point : state.2.point = 2 ^ i • P

namespace Accumulates

variable {P : C.curve.Point} {n i : Nat} {state : JacobianPoint C × JacobianPoint C}

theorem start {p : JacobianPoint C} (hcanonical : p.IsCanonical) (hp : p.IsOnCurve) :
    Accumulates p.point 0 0 (identity, p) where
  acc_canonical := isCanonical_identity (Fact.out : Nat.Prime _).one_lt
  acc_onCurve := isOnCurve_identity
  acc_point := by rw [point_identity, zero_nsmul]
  power_canonical := hcanonical
  power_onCurve := hp
  power_point := by rw [pow_zero, one_nsmul]

/-- Both operands of an addition in the loop are finite, and their first coordinates differ: the
sum and the difference of `n` and `2 ^ i` lie strictly between zero and the order of the point. -/
theorem chord (h : Accumulates P n i state) (hr : C.scalar.modulus.toNat • P = 0) (hn : n < 2 ^ i)
    (hlt : n + 2 ^ i < C.scalar.modulus.toNat) (hacc : state.1.isIdentity = false) :
    state.1.z.toZMod ≠ 0 ∧ state.2.z.toZMod ≠ 0 ∧ state.1.affineX ≠ state.2.affineX := by
  have hsum : n • P ≠ 0 := by
    rw [← h.acc_point, ne_eq, ← isIdentity_iff h.acc_canonical h.acc_onCurve, hacc]
    exact Bool.false_ne_true
  have hP : P ≠ 0 := by
    rintro rfl
    exact hsum (nsmul_zero n)
  have hmultiple {m : Nat} (hpos : 0 < m) (hm : m < C.scalar.modulus.toNat) : m • P ≠ 0 := by
    rw [ne_eq, smul_eq_zero_iff hr hm, not_or]
    exact ⟨Nat.ne_of_gt hpos, hP⟩
  have haccz : state.1.z.toZMod ≠ 0 := by
    rwa [ne_eq, ← point_eq_zero_iff h.acc_onCurve, h.acc_point]
  have hpowerz : state.2.z.toZMod ≠ 0 := by
    rw [ne_eq, ← point_eq_zero_iff h.power_onCurve, h.power_point]
    exact hmultiple (Nat.two_pow_pos i) (by omega)
  refine ⟨haccz, hpowerz, ?_⟩
  rw [ne_eq, affineX_eq_iff h.acc_onCurve h.power_onCurve haccz hpowerz, h.acc_point,
    h.power_point, not_or]
  constructor
  · intro heq
    apply hmultiple (m := 2 ^ i - n) (by omega) (by omega)
    rw [sub_nsmul P hn.le, heq, add_neg_cancel]
  · intro heq
    apply hmultiple (m := n + 2 ^ i) (by omega) hlt
    rw [add_nsmul, heq, neg_add_cancel]

theorem accumulate (h : Accumulates P n i state) (hr : C.scalar.modulus.toNat • P = 0)
    (hn : n < 2 ^ i) (hlt : n + 2 ^ i < C.scalar.modulus.toNat) :
    (state.1.accumulate state.2).IsCanonical ∧ (state.1.accumulate state.2).IsOnCurve ∧
      (state.1.accumulate state.2).point = (n + 2 ^ i) • P := by
  rw [JacobianPoint.accumulate]
  cases hacc : state.1.isIdentity with
  | false =>
      obtain ⟨haccz, hpowerz, hx⟩ := h.chord hr hn hlt hacc
      rw [if_neg Bool.false_ne_true, point_add h.acc_onCurve h.power_onCurve haccz hpowerz hx,
        h.acc_point, h.power_point, add_nsmul]
      exact ⟨isCanonical_add _ _, isOnCurve_add h.acc_onCurve h.power_onCurve, rfl⟩
  | true =>
      have hsum : n • P = 0 := by
        rwa [← h.acc_point, ← isIdentity_iff h.acc_canonical h.acc_onCurve]
      rw [if_pos rfl, h.power_point, add_nsmul, hsum, zero_add]
      exact ⟨h.power_canonical, h.power_onCurve, rfl⟩

theorem step (h : Accumulates P n i state) (hr : C.scalar.modulus.toNat • P = 0) (hn : n < 2 ^ i)
    (bit : Bool) (hlt : n + 2 ^ i * bit.toNat < C.scalar.modulus.toNat) :
    Accumulates P (n + 2 ^ i * bit.toNat) (i + 1) (scaleStep state bit) := by
  have hpower : state.2.double.point = 2 ^ (i + 1) • P := by
    rw [point_double h.power_onCurve, h.power_point, pow_succ, mul_two, add_nsmul]
  have hcanonical := isCanonical_double h.power_canonical
  have honCurve := isOnCurve_double h.power_onCurve
  obtain ⟨acc, power⟩ := state
  cases bit with
  | false =>
      rw [Bool.toNat_false, Nat.mul_zero, Nat.add_zero, scaleStep_false]
      exact ⟨h.acc_canonical, h.acc_onCurve, h.acc_point, hcanonical, honCurve, hpower⟩
  | true =>
      rw [Bool.toNat_true, Nat.mul_one] at hlt ⊢
      rw [scaleStep_true]
      obtain ⟨hsum, hcurve, hpoint⟩ := h.accumulate hr hn hlt
      exact ⟨hsum, hcurve, hpoint, hcanonical, honCurve, hpower⟩

theorem run (h : Accumulates P n i state) (hr : C.scalar.modulus.toNat • P = 0) (hn : n < 2 ^ i)
    (bits : List Bool) (hlt : n + 2 ^ i * binaryValue bits < C.scalar.modulus.toNat) :
    Accumulates P (n + 2 ^ i * binaryValue bits) (i + bits.length)
      (bits.foldl scaleStep state) := by
  induction bits generalizing n i state with
  | nil => exact h
  | cons bit bits ih =>
      have hsplit : n + 2 ^ i * binaryValue (bit :: bits) =
          n + 2 ^ i * bit.toNat + 2 ^ (i + 1) * binaryValue bits := by
        rw [binaryValue, pow_succ]
        ring
      have hbit : 2 ^ i * bit.toNat ≤ 2 ^ i := by
        cases bit <;> simp
      rw [hsplit] at hlt ⊢
      rw [List.foldl_cons, List.length_cons, Nat.add_comm bits.length, ← Nat.add_assoc]
      apply ih (h.step hr hn bit (by omega))
      · rw [pow_succ]
        omega
      · exact hlt

end Accumulates

theorem accumulates_scale {p : JacobianPoint C} (hcanonical : p.IsCanonical) (hp : p.IsOnCurve)
    (hr : C.scalar.modulus.toNat • p.point = 0) {bits : List Bool}
    (hlt : binaryValue bits < C.scalar.modulus.toNat) :
    Accumulates p.point (binaryValue bits) bits.length (bits.foldl scaleStep (identity, p)) := by
  have hrun := (Accumulates.start hcanonical hp).run hr Nat.one_pos bits
  rw [pow_zero, Nat.one_mul, Nat.zero_add, Nat.zero_add] at hrun
  exact hrun hlt

theorem point_scale {p : JacobianPoint C} (hcanonical : p.IsCanonical) (hp : p.IsOnCurve)
    (hr : C.scalar.modulus.toNat • p.point = 0) {k : FieldElement C.scalar} (hk : k.IsCanonical) :
    (p.scale k).point = k.value.toNat • p.point := by
  have hbits : binaryValue k.toInteger.bits = k.value.toNat := UInt256.binaryValue_bits k.value
  have hscale := accumulates_scale hcanonical hp hr (hbits.trans_lt hk)
  rw [hbits] at hscale
  exact hscale.acc_point

/-- The multiple of a point that the scalar modulus kills is the sum of that many copies of it in
the group. No addition on the way meets the identity or two points with one first coordinate. -/
theorem scale_is_multiple :
    (∀ n : Nat, C.scalar.modulus.toNat • n • (generator : JacobianPoint C).point = 0) ∧
    ∀ p : JacobianPoint C, p.IsCanonical → p.IsOnCurve → C.scalar.modulus.toNat • p.point = 0 →
      ∀ k : FieldElement C.scalar, k.IsCanonical →
        p.toAffine .exact = .ofPoint p.point ∧
        (p.scale k).toAffine .exact = .ofPoint (k.value.toNat • p.point) ∧
        ((p.scale k).z = 0 ↔ k = 0 ∨ p.z = 0) ∧
        ∀ before after : List Bool, k.toInteger.bits = before ++ true :: after →
          ∀ acc power : JacobianPoint C, before.foldl scaleStep (identity, p) = (acc, power) →
            acc.isIdentity = false →
              acc.z ≠ 0 ∧ power.z ≠ 0 ∧ (acc.toAffine .exact).x ≠ (power.toAffine .exact).x := by
  constructor
  · intro n
    rw [smul_comm, order_smul_generator, nsmul_zero]
  · intro p hcanonical hp hr k hk
    have hM : 1 < C.base.modulus.toNat := (Fact.out : Nat.Prime _).one_lt
    have hscale := isCanonical_scale hM hcanonical k
    have hcurve := isOnCurve_scale hp k
    refine ⟨toAffine_eq_ofPoint hcanonical hp, ?_, ?_, ?_⟩
    · rw [toAffine_eq_ofPoint hscale hcurve, point_scale hcanonical hp hr hk]
    · rw [← hscale.z.toZMod_eq_zero_iff, ← hcanonical.z.toZMod_eq_zero_iff,
        ← point_eq_zero_iff hcurve, ← point_eq_zero_iff hp, point_scale hcanonical hp hr hk,
        smul_eq_zero_iff hr hk]
      exact or_congr_left ⟨fun h => FieldElement.ext_value h, fun h => h ▸ rfl⟩
    · intro before after hbits acc power hstate hacc
      have hvalue : binaryValue k.toInteger.bits = k.value.toNat := UInt256.binaryValue_bits k.value
      rw [hbits, binaryValue_append, binaryValue, Bool.toNat_true] at hvalue
      have hlow : binaryValue before + 2 ^ before.length ≤ k.value.toNat := by
        rw [← hvalue]
        exact Nat.add_le_add_left (Nat.le_mul_of_pos_right _ (by omega)) _
      have hlt : binaryValue before + 2 ^ before.length < C.scalar.modulus.toNat :=
        Nat.lt_of_le_of_lt hlow hk
      have hbefore : binaryValue before < C.scalar.modulus.toNat :=
        Nat.lt_of_le_of_lt (Nat.le_add_right _ _) hlt
      have hrun := accumulates_scale hcanonical hp hr hbefore
      rw [hstate] at hrun
      obtain ⟨haccz, hpowerz, hx⟩ := hrun.chord hr (binaryValue_lt before) hlt hacc
      refine ⟨?_, ?_, ?_⟩
      · rwa [ne_eq, ← hrun.acc_canonical.z.toZMod_eq_zero_iff]
      · rwa [ne_eq, ← hrun.power_canonical.z.toZMod_eq_zero_iff]
      · rwa [toAffine_x_ne_iff hrun.acc_canonical hrun.power_canonical haccz hpowerz]

theorem scale_generator_three :
    (generator : JacobianPoint .pallas).IsCanonical ∧
      (generator : JacobianPoint .pallas).IsOnCurve ∧
      CurveParams.pallas.scalar.modulus.toNat • (generator : JacobianPoint .pallas).point = 0 ∧
      (⟨.ofLimb 3⟩ : Fq).IsCanonical ∧
      ((generator : JacobianPoint .pallas).scale ⟨.ofLimb 3⟩).toAffine .exact =
        .ofPoint (3 • (generator : JacobianPoint .pallas).point) ∧
      ((generator : JacobianPoint .pallas).toAffine .exact).x ≠
        ((generator : JacobianPoint .pallas).double.toAffine .exact).x :=
  have hthree : (⟨.ofLimb 3⟩ : Fq).IsCanonical := by
    rw [FieldElement.IsCanonical]
    decide
  have hbits : (⟨.ofLimb 3⟩ : Fq).toInteger.bits = [true] ++ true :: [] := by
    rw [UInt256.bits_eq]
    decide
  have hscale := scale_is_multiple.2 (generator : JacobianPoint .pallas) isCanonical_generator
    isOnCurve_generator order_smul_generator ⟨.ofLimb 3⟩ hthree
  ⟨isCanonical_generator, isOnCurve_generator, order_smul_generator, hthree, hscale.2.1,
    (hscale.2.2.2 [true] [] hbits generator generator.double rfl rfl).2.2⟩

end PallasVesta.JacobianPoint
