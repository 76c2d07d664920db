import Mathlib.Tactic.LinearCombination
import PallasVesta.Curve.Jacobian
import PallasVesta.Proofs.CurveCycle
import PallasVesta.Proofs.Inverses

namespace PallasVesta

variable {C : CurveParams}

/-- The third point of a chord with rise `r` and run `h` from `(u, s)`, with the weight `w` of the
coordinates. -/
theorem chord_on_curve {R : Type*} [CommRing R] {b u s w r h : R}
    (hfirst : s ^ 2 = u ^ 3 + b * w ^ 6) (hsecond : (s + r) ^ 2 = (u + h) ^ 3 + b * w ^ 6) :
    (r * (3 * u * h ^ 2 + h ^ 3 - r ^ 2) - s * h ^ 3) ^ 2 =
      (r ^ 2 - h ^ 3 - 2 * u * h ^ 2) ^ 3 + b * (w * h) ^ 6 := by
  linear_combination h ^ 6 * hfirst -
    (3 * u * h ^ 2 + h ^ 3 - r ^ 2) * h ^ 3 * (hsecond - hfirst)

namespace AffinePoint

theorem isOnCurve_finite_iff [NeZero C.base.modulus.toNat] {x y : FieldElement C.base} :
    (finite x y : AffinePoint C).isOnCurve = true ↔
      y.toZMod ^ 2 = x.toZMod ^ 3 + C.b.toZMod := by
  rw [isOnCurve, finite, Bool.false_or, beq_iff_eq,
    ← (FieldElement.isCanonical_square _).toZMod_inj (FieldElement.isCanonical_add _ _),
    FieldElement.toZMod_add, FieldElement.toZMod_mul, FieldElement.toZMod_square,
    FieldElement.toZMod_square, ← pow_succ]

end AffinePoint

namespace JacobianPoint

theorem scaleStep_false (acc power : JacobianPoint C) :
    scaleStep (acc, power) false = (acc, power.double) := by
  rw [scaleStep, if_neg Bool.false_ne_true]

theorem scaleStep_true (acc power : JacobianPoint C) :
    scaleStep (acc, power) true = (acc.accumulate power, power.double) := by
  rw [scaleStep, if_pos rfl]

theorem scaleBits_induction {motive : JacobianPoint C → Prop} (hidentity : motive identity)
    (hadd : ∀ p q, motive p → motive q → motive (p.add q))
    (hdouble : ∀ p, motive p → motive p.double) {p : JacobianPoint C} (hp : motive p)
    (bits : List Bool) : motive (p.scaleBits bits) := by
  suffices hfold : ∀ state : JacobianPoint C × JacobianPoint C, motive state.1 → motive state.2 →
      motive (bits.foldl scaleStep state).1 from hfold (identity, p) hidentity hp
  induction bits with
  | nil =>
      intro state hacc _
      exact hacc
  | cons bit bits ih =>
      rintro ⟨acc, power⟩ hacc hpower
      rw [List.foldl_cons]
      cases bit with
      | false =>
          rw [scaleStep_false]
          exact ih (acc, power.double) hacc (hdouble power hpower)
      | true =>
          rw [scaleStep_true]
          refine ih (acc.accumulate power, power.double) ?_ (hdouble power hpower)
          rw [accumulate]
          split
          · exact hpower
          · exact hadd acc power hacc hpower

theorem double_eq_self {p : JacobianPoint C} (hp : p.isIdentity = true) : p.double = p := by
  rw [double, if_pos hp]

section

variable [NeZero C.base.modulus.toNat]

theorem isOnCurve_iff (p : JacobianPoint C) : p.IsOnCurve ↔
    p.y.toZMod ^ 2 = p.x.toZMod ^ 3 + C.b.toZMod * p.z.toZMod ^ 6 := by
  rw [IsOnCurve,
    ← (FieldElement.isCanonical_square _).toZMod_inj (FieldElement.isCanonical_add _ _)]
  simp only [FieldElement.toZMod_add, FieldElement.toZMod_mul, FieldElement.toZMod_square]
  rw [← pow_succ, ← pow_succ, ← pow_mul]

/-- The run of the chord, times the squares of both `z`. -/
def run (p q : JacobianPoint C) : ZMod C.base.modulus.toNat :=
  q.x.toZMod * p.z.toZMod ^ 2 - p.x.toZMod * q.z.toZMod ^ 2

def rise (p q : JacobianPoint C) : ZMod C.base.modulus.toNat :=
  q.y.toZMod * p.z.toZMod ^ 3 - p.y.toZMod * q.z.toZMod ^ 3

variable (p q : JacobianPoint C)

theorem toZMod_x_add : (p.add q).x.toZMod =
    4 * (p.rise q ^ 2 - p.run q ^ 3 - 2 * (p.x.toZMod * q.z.toZMod ^ 2) * p.run q ^ 2) := by
  simp only [add, rise, run, FieldElement.toZMod_sub, FieldElement.toZMod_mul,
    FieldElement.toZMod_square, FieldElement.toZMod_double]
  ring

theorem toZMod_y_add : (p.add q).y.toZMod =
    8 * (p.rise q * (3 * (p.x.toZMod * q.z.toZMod ^ 2) * p.run q ^ 2 + p.run q ^ 3 -
      p.rise q ^ 2) - p.y.toZMod * q.z.toZMod ^ 3 * p.run q ^ 3) := by
  simp only [add, rise, run, FieldElement.toZMod_sub, FieldElement.toZMod_mul,
    FieldElement.toZMod_square, FieldElement.toZMod_double]
  ring

theorem toZMod_z_add :
    (p.add q).z.toZMod = 2 * (p.z.toZMod * q.z.toZMod * p.run q) := by
  simp only [add, run, FieldElement.toZMod_add, FieldElement.toZMod_sub, FieldElement.toZMod_mul,
    FieldElement.toZMod_square]
  ring

variable {p}

theorem toZMod_x_double (hp : p.isIdentity = false) :
    p.double.x.toZMod = 9 * p.x.toZMod ^ 4 - 8 * p.x.toZMod * p.y.toZMod ^ 2 := by
  simp only [double, hp, Bool.false_eq_true, if_false, FieldElement.toZMod_add,
    FieldElement.toZMod_sub, FieldElement.toZMod_square, FieldElement.toZMod_double]
  ring

theorem toZMod_y_double (hp : p.isIdentity = false) : p.double.y.toZMod =
    3 * p.x.toZMod ^ 2 * (12 * p.x.toZMod * p.y.toZMod ^ 2 - 9 * p.x.toZMod ^ 4) -
      8 * p.y.toZMod ^ 4 := by
  simp only [double, hp, Bool.false_eq_true, if_false, FieldElement.toZMod_add,
    FieldElement.toZMod_sub, FieldElement.toZMod_mul, FieldElement.toZMod_square,
    FieldElement.toZMod_double]
  ring

theorem toZMod_z_double (hp : p.isIdentity = false) :
    p.double.z.toZMod = 2 * p.y.toZMod * p.z.toZMod := by
  simp only [double, hp, Bool.false_eq_true, if_false, FieldElement.toZMod_mul,
    FieldElement.toZMod_double]
  ring

variable {q}

theorem isOnCurve_identity : (identity : JacobianPoint C).IsOnCurve := by
  rw [isOnCurve_iff, identity, FieldElement.toZMod_one, FieldElement.toZMod_zero]
  ring

theorem isOnCurve_negate (hp : p.IsOnCurve) : p.negate.IsOnCurve := by
  rw [isOnCurve_iff] at hp ⊢
  rw [negate, FieldElement.toZMod_neg, neg_sq]
  exact hp

theorem isOnCurve_add (hp : p.IsOnCurve) (hq : q.IsOnCurve) : (p.add q).IsOnCurve := by
  rw [isOnCurve_iff] at hp hq ⊢
  have hfirst : (p.y.toZMod * q.z.toZMod ^ 3) ^ 2 = (p.x.toZMod * q.z.toZMod ^ 2) ^ 3 +
      C.b.toZMod * (p.z.toZMod * q.z.toZMod) ^ 6 := by
    linear_combination q.z.toZMod ^ 6 * hp
  have hsecond : (p.y.toZMod * q.z.toZMod ^ 3 + p.rise q) ^ 2 =
      (p.x.toZMod * q.z.toZMod ^ 2 + p.run q) ^ 3 +
        C.b.toZMod * (p.z.toZMod * q.z.toZMod) ^ 6 := by
    rw [rise, run, add_sub_cancel, add_sub_cancel]
    linear_combination p.z.toZMod ^ 6 * hq
  rw [toZMod_x_add, toZMod_y_add, toZMod_z_add]
  linear_combination 64 * chord_on_curve hfirst hsecond

theorem isOnCurve_sub (hp : p.IsOnCurve) (hq : q.IsOnCurve) : (p.sub q).IsOnCurve :=
  isOnCurve_add hp (isOnCurve_negate hq)

theorem isOnCurve_double (hp : p.IsOnCurve) : p.double.IsOnCurve := by
  cases hz : p.isIdentity with
  | false =>
      rw [isOnCurve_iff] at hp ⊢
      rw [toZMod_x_double hz, toZMod_y_double hz, toZMod_z_double hz]
      linear_combination 64 * p.y.toZMod ^ 6 * hp
  | true => rwa [double_eq_self hz]

theorem isOnCurve_scale (hp : p.IsOnCurve) (k : FieldElement C.scalar) : (p.scale k).IsOnCurve :=
  scaleBits_induction isOnCurve_identity (fun _ _ => isOnCurve_add) (fun _ => isOnCurve_double) hp _

theorem isOnCurve_ofCoordinates {a : AffinePoint C} (h : a.isOnCurve = true)
    (hfinite : a.infinity = false) : (ofCoordinates a.x a.y).IsOnCurve := by
  obtain ⟨x, y, infinity⟩ := a
  obtain rfl : infinity = false := hfinite
  have hxy := AffinePoint.isOnCurve_finite_iff.1 h
  rw [isOnCurve_iff, ofCoordinates, FieldElement.toZMod_one, one_pow, mul_one]
  exact hxy

theorem isOnCurve_toJacobian {a : AffinePoint C} (h : a.isOnCurve = true) :
    a.toJacobian.IsOnCurve := by
  rw [AffinePoint.toJacobian]
  split
  · exact isOnCurve_identity
  · next hfinite => exact isOnCurve_ofCoordinates h (Bool.not_eq_true _ ▸ hfinite)

theorem isOnCurve_toAffine (hM : 1 < C.base.modulus.toNat) (hp : p.IsOnCurve) :
    (p.toAffine .exact).isOnCurve = true := by
  rw [isOnCurve_iff] at hp
  rw [toAffine]
  split
  · next hone =>
      rw [AffinePoint.isOnCurve_finite_iff]
      rwa [hone, FieldElement.toZMod_one, one_pow, mul_one] at hp
  · split
    · rfl
    · next inverse hinverse =>
        have hmul := (FieldElement.of_inverse_eq_ok hM hinverse).2
        have hpow : (inverse.toZMod * p.z.toZMod) ^ 6 = 1 := by rw [hmul, one_pow]
        rw [AffinePoint.isOnCurve_finite_iff]
        simp only [FieldElement.toZMod_mul, FieldElement.toZMod_square]
        linear_combination inverse.toZMod ^ 6 * hp + C.b.toZMod * hpow

end

theorem isOnCurve_of_modEq [NeZero C.base.modulus.toNat] {x y z : UInt256}
    (h : y.toNat ^ 2 ≡ x.toNat ^ 3 + 5 * z.toNat ^ 6 [MOD C.base.modulus.toNat]) :
    (⟨⟨x⟩, ⟨y⟩, ⟨z⟩⟩ : JacobianPoint C).IsOnCurve := by
  rw [← ZMod.natCast_eq_natCast_iff] at h
  push_cast at h
  rw [isOnCurve_iff, CurveParams.toZMod_b]
  exact h

theorem isOnCurve_generator [hC : C.InCycle] : (generator : JacobianPoint C).IsOnCurve := by
  apply isOnCurve_of_modEq
  rcases hC.eq_or_eq with rfl | rfl <;> decide +kernel

/-- The triples that some sequence of operations makes from the generator and the identity, from
random points, from affine points on the curve and from the coordinates of liftable ones. -/
inductive Reachable (liftable : AffinePoint C → Prop) : JacobianPoint C → Prop
  | generator : Reachable liftable generator
  | identity : Reachable liftable identity
  | draw {stream : ByteStream} {position limit next : Nat} {p : JacobianPoint C}
      (h : draw stream position limit = some (p, next)) : Reachable liftable p
  | drawMany {stream : ByteStream} {limit position count next : Nat} {p : JacobianPoint C}
      {points : List (JacobianPoint C)}
      (h : drawMany stream limit position count = some (points, next)) (hp : p ∈ points) :
      Reachable liftable p
  | ofStream (stream : ByteStream) : Reachable liftable (ofStream stream)
  | ofSeed (seed : UInt64) : Reachable liftable (ofSeed seed)
  | ofCoordinates {a : AffinePoint C} (h : liftable a) :
      Reachable liftable (ofCoordinates a.x a.y)
  | toJacobian {a : AffinePoint C} (h : a.isOnCurve = true) : Reachable liftable a.toJacobian
  | add {p q : JacobianPoint C} (hp : Reachable liftable p) (hq : Reachable liftable q) :
      Reachable liftable (p.add q)
  | sub {p q : JacobianPoint C} (hp : Reachable liftable p) (hq : Reachable liftable q) :
      Reachable liftable (p.sub q)
  | negate {p : JacobianPoint C} (hp : Reachable liftable p) : Reachable liftable p.negate
  | double {p : JacobianPoint C} (hp : Reachable liftable p) : Reachable liftable p.double
  | scale {p : JacobianPoint C} (hp : Reachable liftable p) (k : FieldElement C.scalar) :
      Reachable liftable (p.scale k)

/-- The point at infinity is on the curve and has the coordinates (1, 1), which are not. -/
theorem ofCoordinates_identity_off_curve :
    (AffinePoint.identity : AffinePoint .pallas).isOnCurve = true ∧
      Reachable (fun a : AffinePoint .pallas => a.isOnCurve = true)
        (ofCoordinates AffinePoint.identity.x AffinePoint.identity.y) ∧
      ¬(ofCoordinates AffinePoint.identity.x AffinePoint.identity.y :
        JacobianPoint .pallas).IsOnCurve ∧
      ((ofCoordinates AffinePoint.identity.x AffinePoint.identity.y :
        JacobianPoint .pallas).toAffine .exact).isOnCurve = false := by
  refine ⟨rfl, .ofCoordinates rfl, ?_, ?_⟩
  · rw [IsOnCurve]
    decide +kernel
  · decide +kernel

theorem exists_scale_of_draw {stream : ByteStream} {position limit next : Nat}
    {p : JacobianPoint C} (h : draw stream position limit = some (p, next)) :
    ∃ k, p = generator.scale k := by
  obtain ⟨⟨k, _⟩, -, hk⟩ := Option.map_eq_some_iff.1 h
  exact ⟨k, (Prod.mk.inj hk).1.symm⟩

theorem exists_scale_of_drawMany {stream : ByteStream} {limit position count next : Nat}
    {p : JacobianPoint C} {points : List (JacobianPoint C)}
    (h : drawMany stream limit position count = some (points, next)) (hp : p ∈ points) :
    ∃ k, p = generator.scale k := by
  obtain ⟨⟨scalars, _⟩, -, hpoints⟩ := Option.map_eq_some_iff.1 h
  rw [← (Prod.mk.inj hpoints).1] at hp
  obtain ⟨k, -, hk⟩ := List.mem_map.1 hp
  exact ⟨k, hk.symm⟩

theorem Reachable.isOnCurve [C.InCycle] {liftable : AffinePoint C → Prop}
    (hliftable : ∀ a, liftable a → (JacobianPoint.ofCoordinates a.x a.y).IsOnCurve)
    {p : JacobianPoint C} (h : Reachable liftable p) : p.IsOnCurve := by
  induction h with
  | generator => exact isOnCurve_generator
  | identity => exact isOnCurve_identity
  | draw h =>
      obtain ⟨k, rfl⟩ := exists_scale_of_draw h
      exact isOnCurve_scale isOnCurve_generator k
  | drawMany h hp =>
      obtain ⟨k, rfl⟩ := exists_scale_of_drawMany h hp
      exact isOnCurve_scale isOnCurve_generator k
  | ofStream stream => exact isOnCurve_scale isOnCurve_generator _
  | ofSeed seed => exact isOnCurve_scale isOnCurve_generator _
  | ofCoordinates h => exact hliftable _ h
  | toJacobian h => exact isOnCurve_toJacobian h
  | add _ _ hp hq => exact isOnCurve_add hp hq
  | sub _ _ hp hq => exact isOnCurve_sub hp hq
  | negate _ hp => exact isOnCurve_negate hp
  | double _ hp => exact isOnCurve_double hp
  | scale _ k hp => exact isOnCurve_scale hp k

/-- No sequence of operations leaves the curve where only the coordinates of finite points are
lifted, not even through the cases in which addition is not the group law. -/
theorem Reachable.isOnCurve_and_toAffine [C.InCycle] {p : JacobianPoint C}
    (h : Reachable (fun a => a.isOnCurve = true ∧ a.infinity = false) p) :
    p.IsOnCurve ∧ (p.toAffine .exact).isOnCurve = true := by
  have hprime : C.base.modulus.toNat.Prime := Fact.out
  have hcurve : p.IsOnCurve := h.isOnCurve fun a ha => isOnCurve_ofCoordinates ha.1 ha.2
  exact ⟨hcurve, isOnCurve_toAffine hprime.one_lt hcurve⟩

theorem generator_add_generator_on_curve :
    Reachable (fun a => a.isOnCurve = true ∧ a.infinity = false)
        (generator.add generator : JacobianPoint .pallas) ∧
      (generator.add generator : JacobianPoint .pallas).IsOnCurve ∧
      ((generator.add generator : JacobianPoint .pallas).toAffine .exact).isOnCurve = true :=
  have h : Reachable (fun a => a.isOnCurve = true ∧ a.infinity = false)
      (generator.add generator : JacobianPoint .pallas) := .add .generator .generator
  ⟨h, Reachable.isOnCurve_and_toAffine h⟩

end JacobianPoint

end PallasVesta
