import PallasVesta.Proofs.GroupLaw

namespace PallasVesta

/-- Coordinates as natural numbers, read modulo the modulus of the base field. -/
structure Triple where
  x : Nat
  y : Nat
  z : Nat

namespace Triple

def negMod (modulus a : Nat) : Nat := modulus - a % modulus

def double (modulus : Nat) (t : Triple) : Triple :=
  let a := t.x * t.x % modulus
  let b := t.y * t.y % modulus
  let d := 4 * t.x * b % modulus
  let x := (9 * a * a + 2 * negMod modulus d) % modulus
  { x
    y := (3 * a * (d + negMod modulus x) + 8 * negMod modulus (b * b)) % modulus
    z := 2 * t.y * t.z % modulus }

def run (modulus : Nat) (t g : Triple) : Nat :=
  (g.x * t.z * t.z + negMod modulus (t.x * g.z * g.z)) % modulus

def rise (modulus : Nat) (t g : Triple) : Nat :=
  (g.y * t.z * t.z * t.z + negMod modulus (t.y * g.z * g.z * g.z)) % modulus

def add (modulus : Nat) (t g : Triple) : Triple :=
  let h := run modulus t g
  let r := rise modulus t g
  let hh := h * h % modulus
  let j := h * hh % modulus
  let v := t.x * g.z * g.z * hh % modulus
  let x := (r * r + negMod modulus j + 2 * negMod modulus v) % modulus
  { x := 4 * x % modulus
    y := 8 * (r * (v + negMod modulus x) + negMod modulus (t.y * g.z * g.z * g.z * j)) % modulus
    z := 2 * t.z * g.z * h % modulus }

/-- The multiple of `g` by `n`, if all its additions are chords. -/
def multiple (modulus : Nat) (g : Triple) : Nat → Nat → Option Triple
  | 0, _ => none
  | width + 1, n =>
      if n = 1 then some g
      else
        match multiple modulus g width (n / 2) with
        | none => none
        | some t =>
          let doubled := t.double modulus
          if n % 2 = 0 then some doubled
          else if doubled.run modulus g = 0 then none
          else some (doubled.add modulus g)

def isNegation (modulus : Nat) (t g : Triple) : Bool :=
  t.run modulus g == 0 && (t.y * g.z * g.z * g.z + g.y * t.z * t.z * t.z) % modulus == 0

variable {C : CurveParams}

def toPoint (t : Triple) : JacobianPoint C := ⟨.ofZMod t.x, .ofZMod t.y, .ofZMod t.z⟩

theorem natCast_negMod {modulus : Nat} (h : 0 < modulus) (a : Nat) :
    (negMod modulus a : ZMod modulus) = -a := by
  rw [negMod, Nat.cast_sub (Nat.mod_lt a h).le, ZMod.natCast_self, zero_sub, ZMod.natCast_mod]

section

variable [hM : NeZero C.base.modulus.toNat]

theorem isCanonical_toPoint (t : Triple) : (t.toPoint : JacobianPoint C).IsCanonical :=
  ⟨FieldElement.isCanonical_ofZMod _, FieldElement.isCanonical_ofZMod _,
    FieldElement.isCanonical_ofZMod _⟩

theorem toPoint_eq_iff {t : Triple} {p : JacobianPoint C} (hp : p.IsCanonical) : t.toPoint = p ↔
    p.x.toZMod = t.x ∧ p.y.toZMod = t.y ∧ p.z.toZMod = t.z := by
  rw [← hp.x.ofZMod_eq_iff, ← hp.y.ofZMod_eq_iff, ← hp.z.ofZMod_eq_iff]
  obtain ⟨x, y, z⟩ := p
  exact JacobianPoint.mk.injEq _ _ _ x y z ▸ Iff.rfl

theorem natCast_run (t g : Triple) : (t.run C.base.modulus.toNat g : ZMod C.base.modulus.toNat) =
    (t.toPoint : JacobianPoint C).run g.toPoint := by
  simp only [run, JacobianPoint.run, toPoint, FieldElement.toZMod_ofZMod, ZMod.natCast_mod,
    Nat.cast_add, Nat.cast_mul, natCast_negMod (Nat.pos_of_ne_zero hM.out)]
  ring

theorem natCast_rise (t g : Triple) : (t.rise C.base.modulus.toNat g : ZMod C.base.modulus.toNat) =
    (t.toPoint : JacobianPoint C).rise g.toPoint := by
  simp only [rise, JacobianPoint.rise, toPoint, FieldElement.toZMod_ofZMod, ZMod.natCast_mod,
    Nat.cast_add, Nat.cast_mul, natCast_negMod (Nat.pos_of_ne_zero hM.out)]
  ring

theorem toPoint_double {t : Triple} (hz : (t.toPoint : JacobianPoint C).isIdentity = false) :
    (t.double C.base.modulus.toNat).toPoint = (t.toPoint : JacobianPoint C).double := by
  have hpos : 0 < C.base.modulus.toNat := Nat.pos_of_ne_zero hM.out
  rw [toPoint_eq_iff (JacobianPoint.isCanonical_double (isCanonical_toPoint t)),
    JacobianPoint.toZMod_x_double hz, JacobianPoint.toZMod_y_double hz,
    JacobianPoint.toZMod_z_double hz]
  simp only [double, toPoint, FieldElement.toZMod_ofZMod, ZMod.natCast_mod, Nat.cast_add,
    Nat.cast_mul, Nat.cast_ofNat, natCast_negMod hpos, and_true]
  refine ⟨?_, ?_⟩ <;> ring

theorem toPoint_add (t g : Triple) : (t.add C.base.modulus.toNat g).toPoint =
    (t.toPoint : JacobianPoint C).add g.toPoint := by
  have hpos : 0 < C.base.modulus.toNat := Nat.pos_of_ne_zero hM.out
  rw [toPoint_eq_iff (JacobianPoint.isCanonical_add _ _), JacobianPoint.toZMod_x_add,
    JacobianPoint.toZMod_y_add, JacobianPoint.toZMod_z_add, ← natCast_run, ← natCast_rise]
  simp only [add, toPoint, FieldElement.toZMod_ofZMod, ZMod.natCast_mod, Nat.cast_add,
    Nat.cast_mul, Nat.cast_ofNat, natCast_negMod hpos]
  refine ⟨?_, ?_, ?_⟩ <;> ring

end

section

variable [hC : C.InCycle]

/-- What a computed multiple is: a finite triple on the curve for the multiple in the group. -/
structure IsMultiple (C : CurveParams) [C.InCycle] (g : Triple) (n : Nat) (t : Triple) : Prop where
  isOnCurve : (t.toPoint : JacobianPoint C).IsOnCurve
  finite : (t.toPoint : JacobianPoint C).z.toZMod ≠ 0
  point_eq : (t.toPoint : JacobianPoint C).point = n • (g.toPoint : JacobianPoint C).point

theorem IsMultiple.double {g t : Triple} {n : Nat} (h : IsMultiple C g n t) :
    IsMultiple C g (2 * n) (t.double C.base.modulus.toNat) := by
  have hdouble := toPoint_double (JacobianPoint.isIdentity_eq_false h.finite)
  have hy := JacobianPoint.affineY_ne_zero h.isOnCurve h.finite
  refine ⟨?_, ?_, ?_⟩
  · rw [hdouble]
    exact JacobianPoint.isOnCurve_double h.isOnCurve
  · rw [hdouble]
    exact JacobianPoint.toZMod_z_double_ne_zero C.two_ne_zero h.finite hy
  · rw [hdouble, JacobianPoint.point_double h.isOnCurve, h.point_eq, two_mul, add_nsmul]

theorem IsMultiple.add {g t : Triple} {n : Nat} (h : IsMultiple C g n t)
    (hg : IsMultiple C g 1 g) (hrun : t.run C.base.modulus.toNat g ≠ 0) :
    IsMultiple C g (n + 1) (t.add C.base.modulus.toNat g) := by
  have hx : (t.toPoint : JacobianPoint C).affineX ≠ (g.toPoint : JacobianPoint C).affineX := by
    rw [ne_eq, ← JacobianPoint.run_eq_zero_iff h.finite hg.finite, ← natCast_run,
      ZMod.natCast_eq_zero_iff]
    intro hdvd
    exact hrun (Nat.eq_zero_of_dvd_of_lt hdvd (Nat.mod_lt _ (Fact.out : Nat.Prime _).pos))
  refine ⟨?_, ?_, ?_⟩
  · rw [toPoint_add]
    exact JacobianPoint.isOnCurve_add h.isOnCurve hg.isOnCurve
  · rw [toPoint_add]
    exact JacobianPoint.toZMod_z_add_ne_zero C.two_ne_zero h.finite hg.finite hx
  · rw [toPoint_add, JacobianPoint.point_add h.isOnCurve hg.isOnCurve h.finite hg.finite hx,
      h.point_eq, succ_nsmul]

theorem isMultiple_of_multiple {g : Triple} (hg : IsMultiple C g 1 g) {width n : Nat} {t : Triple}
    (h : multiple C.base.modulus.toNat g width n = some t) : IsMultiple C g n t := by
  induction width generalizing n t with
  | zero => nomatch h
  | succ width ih =>
      rw [multiple] at h
      split at h
      · next hone =>
          rw [hone, ← Option.some.inj h]
          exact hg
      · split at h
        · nomatch h
        · next half hhalf =>
            have hdouble := (ih hhalf).double
            split at h
            · next heven =>
                rw [← Option.some.inj h, show n = 2 * (n / 2) by omega]
                exact hdouble
            · next hodd =>
                dsimp only at h
                split at h
                · nomatch h
                · next hrun =>
                    rw [← Option.some.inj h, show n = 2 * (n / 2) + 1 by omega]
                    exact hdouble.add hg hrun

theorem point_eq_neg_of_isNegation {g t : Triple} {n : Nat} (hg : IsMultiple C g 1 g)
    (ht : IsMultiple C g n t) (h : t.isNegation C.base.modulus.toNat g = true) :
    (t.toPoint : JacobianPoint C).point = -(g.toPoint : JacobianPoint C).point := by
  obtain ⟨hx, hy⟩ := Bool.and_eq_true_iff.1 h
  rw [beq_iff_eq] at hx hy
  have hrun := natCast_run (C := C) t g
  rw [hx, Nat.cast_zero, eq_comm, JacobianPoint.run_eq_zero_iff ht.finite hg.finite] at hrun
  have hsum : (t.toPoint : JacobianPoint C).affineY +
      (g.toPoint : JacobianPoint C).affineY = 0 := by
    have hzero : ((t.y * g.z * g.z * g.z + g.y * t.z * t.z * t.z : Nat) :
        ZMod C.base.modulus.toNat) = 0 := by
      rw [← ZMod.natCast_mod, hy, Nat.cast_zero]
    have htz := ht.finite
    have hgz := hg.finite
    simp only [JacobianPoint.affineY, toPoint, FieldElement.toZMod_ofZMod, Nat.cast_add,
      Nat.cast_mul] at htz hgz hzero ⊢
    field_simp
    linear_combination hzero
  rw [JacobianPoint.point_of_z_ne_zero ht.isOnCurve ht.finite,
    JacobianPoint.point_of_z_ne_zero hg.isOnCurve hg.finite, WeierstrassCurve.Affine.Point.neg_some,
    WeierstrassCurve.Affine.Point.some.injEq, CurveParams.negY_eq]
  exact ⟨hrun, eq_neg_of_add_eq_zero_left hsum⟩

end

def generator (C : CurveParams) : Triple := ⟨C.generatorX.toNat, C.generatorY.toNat, 1⟩

/-- Whether the multiple of the generator by one less than the scalar modulus is its negation. -/
def generatorCloses (C : CurveParams) : Bool :=
  (multiple C.base.modulus.toNat (generator C) 255 (C.scalar.modulus.toNat - 1)).any
    fun t => t.isNegation C.base.modulus.toNat (generator C)

theorem generatorCloses_pallas : generatorCloses .pallas = true := by
  decide +kernel

theorem generatorCloses_vesta : generatorCloses .vesta = true := by
  decide +kernel

end Triple

namespace JacobianPoint

variable {C : CurveParams} [hC : C.InCycle]

theorem toPoint_generator : (Triple.generator C).toPoint = (generator : JacobianPoint C) :=
  (Triple.toPoint_eq_iff isCanonical_generator).2 ⟨rfl, rfl, rfl⟩

theorem isMultiple_generator : Triple.IsMultiple C (.generator C) 1 (.generator C) := by
  refine ⟨?_, ?_, (one_nsmul _).symm⟩
  · rw [toPoint_generator]
    exact isOnCurve_generator
  · rw [toPoint_generator]
    exact finite_generator

theorem order_smul_generator :
    C.scalar.modulus.toNat • (generator : JacobianPoint C).point = 0 := by
  have hcloses : Triple.generatorCloses C = true := by
    rcases hC.eq_or_eq with rfl | rfl
    · exact Triple.generatorCloses_pallas
    · exact Triple.generatorCloses_vesta
  obtain ⟨t, ht, hnegation⟩ := (Option.any_eq_true _ _).1 hcloses
  have hmultiple := Triple.isMultiple_of_multiple isMultiple_generator ht
  have hneg := Triple.point_eq_neg_of_isNegation isMultiple_generator hmultiple hnegation
  rw [hmultiple.point_eq, toPoint_generator] at hneg
  have hpos : C.scalar.modulus.toNat - 1 + 1 = C.scalar.modulus.toNat :=
    Nat.sub_add_cancel (Fact.out : Nat.Prime _).pos
  rw [← hpos, succ_nsmul, hneg, neg_add_cancel]

end JacobianPoint

end PallasVesta
