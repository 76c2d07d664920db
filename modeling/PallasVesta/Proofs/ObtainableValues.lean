import PallasVesta.Proofs.ReaderResults
import PallasVesta.Proofs.ResidueRing
import PallasVesta.Surface.Calls

namespace PallasVesta.Value

open CurveParams (one_lt_base_modulus)

/-- The values that some sequence of constructors and operations gives: elements of any field, and
points of the two curves. -/
inductive Obtainable : Value → Prop
  | zero {M : FieldParams} : Obtainable (.element (0 : FieldElement M))
  | one {M : FieldParams} : Obtainable (.element (1 : FieldElement M))
  | default {M : FieldParams} : Obtainable (.element (default : FieldElement M))
  | ofInteger {M : FieldParams} {value : UInt256} {a : FieldElement M}
      (h : FieldElement.ofInteger value = .ok a) : Obtainable (.element a)
  | ofBytes {M : FieldParams} {bytes : Vector UInt8 32} {a : FieldElement M}
      (h : FieldElement.ofBytes bytes = .ok a) : Obtainable (.element a)
  | ofByteList {M : FieldParams} {bytes : List UInt8} {a : FieldElement M}
      (h : FieldElement.ofByteList bytes = .ok a) : Obtainable (.element a)
  | ofDecimal {M : FieldParams} {text : String} {a : FieldElement M}
      (h : FieldElement.ofDecimal text = .ok a) : Obtainable (.element a)
  | ofJson {M : FieldParams} {text : String} {a : FieldElement M}
      (h : FieldElement.ofJson text = .ok a) : Obtainable (.element a)
  | ofInt64 {M : FieldParams} (n : Int64) : Obtainable (.element (.ofInt64 n : FieldElement M))
  | ofUInt64 {M : FieldParams} (n : UInt64) : Obtainable (.element (.ofUInt64 n : FieldElement M))
  | draw {M : FieldParams} {stream : ByteStream} {position limit next : Nat} {a : FieldElement M}
      (h : FieldElement.draw stream position limit = some (a, next)) : Obtainable (.element a)
  | drawMany {M : FieldParams} {stream : ByteStream} {limit position count next : Nat}
      {drawn : List (FieldElement M)} {a : FieldElement M}
      (h : FieldElement.drawMany stream limit position count = some (drawn, next))
      (ha : a ∈ drawn) : Obtainable (.element a)
  | ofStream {M : FieldParams} (stream : ByteStream) :
      Obtainable (.element (.ofStream stream : FieldElement M))
  | ofSeed {M : FieldParams} (seed : UInt64) :
      Obtainable (.element (.ofSeed seed : FieldElement M))
  | twoAdicRoot {M : FieldParams} : Obtainable (.element (.twoAdicRoot : FieldElement M))
  | domainGenerator {M : FieldParams} {log2Size : Nat} {a : FieldElement M}
      (h : FieldElement.domainGenerator log2Size = .ok a) : Obtainable (.element a)
  | add {M : FieldParams} {a b : FieldElement M} (ha : Obtainable (.element a))
      (hb : Obtainable (.element b)) : Obtainable (.element (a + b))
  | sub {M : FieldParams} {a b : FieldElement M} (ha : Obtainable (.element a))
      (hb : Obtainable (.element b)) : Obtainable (.element (a - b))
  | mul {M : FieldParams} {a b : FieldElement M} (ha : Obtainable (.element a))
      (hb : Obtainable (.element b)) : Obtainable (.element (a * b))
  | neg {M : FieldParams} {a : FieldElement M} (ha : Obtainable (.element a)) :
      Obtainable (.element (-a))
  | square {M : FieldParams} {a : FieldElement M} (ha : Obtainable (.element a)) :
      Obtainable (.element a.square)
  | double {M : FieldParams} {a : FieldElement M} (ha : Obtainable (.element a)) :
      Obtainable (.element a.double)
  | squareTimes {M : FieldParams} {a : FieldElement M} (ha : Obtainable (.element a)) (n : Nat) :
      Obtainable (.element (a.squareTimes n))
  | pow {M : FieldParams} {a : FieldElement M} (ha : Obtainable (.element a))
      (exponent : UInt256) : Obtainable (.element (a.pow exponent))
  | inverse {M : FieldParams} {a x : FieldElement M} (ha : Obtainable (.element a))
      (h : a.inverse = .ok x) : Obtainable (.element x)
  | div {M : FieldParams} {a b c : FieldElement M} (ha : Obtainable (.element a))
      (hb : Obtainable (.element b)) (h : a.div b = .ok c) : Obtainable (.element c)
  | sqrt {M : FieldParams} {a r : FieldElement M} (ha : Obtainable (.element a))
      (h : a.sqrt = some r) : Obtainable (.element r)
  | coefficient {C : CurveParams} [C.InCycle] : Obtainable (.element C.b)
  | endoBase {C : CurveParams} [C.InCycle] : Obtainable (.element C.endoBaseElement)
  | endoScalar {C : CurveParams} [C.InCycle] : Obtainable (.element C.endoScalarElement)
  | x {C : CurveParams} [C.InCycle] {p : JacobianPoint C} (hp : Obtainable (.point p)) :
      Obtainable (.element p.x)
  | y {C : CurveParams} [C.InCycle] {p : JacobianPoint C} (hp : Obtainable (.point p)) :
      Obtainable (.element p.y)
  | z {C : CurveParams} [C.InCycle] {p : JacobianPoint C} (hp : Obtainable (.point p)) :
      Obtainable (.element p.z)
  | affineX {C : CurveParams} [C.InCycle] {a : AffinePoint C} (ha : Obtainable (.affine a)) :
      Obtainable (.element a.x)
  | affineY {C : CurveParams} [C.InCycle] {a : AffinePoint C} (ha : Obtainable (.affine a)) :
      Obtainable (.element a.y)
  | identity {C : CurveParams} [C.InCycle] : Obtainable (.point (.identity : JacobianPoint C))
  | defaultPoint {C : CurveParams} [C.InCycle] : Obtainable (.point (default : JacobianPoint C))
  | generator {C : CurveParams} [C.InCycle] : Obtainable (.point (.generator : JacobianPoint C))
  | ofCoordinates {C : CurveParams} [C.InCycle] {x y : FieldElement C.base}
      (hx : Obtainable (.element x)) (hy : Obtainable (.element y)) :
      Obtainable (.point (.ofCoordinates x y : JacobianPoint C))
  | triple {C : CurveParams} [C.InCycle] {x y z : FieldElement C.base}
      (hx : Obtainable (.element x)) (hy : Obtainable (.element y))
      (hz : Obtainable (.element z)) : Obtainable (.point (⟨x, y, z⟩ : JacobianPoint C))
  | toJacobian {C : CurveParams} [C.InCycle] {a : AffinePoint C} (ha : Obtainable (.affine a)) :
      Obtainable (.point a.toJacobian)
  | pointOfJson {C : CurveParams} [C.InCycle] {text : String} {p : JacobianPoint C}
      (h : JacobianPoint.ofJson text = .ok p) : Obtainable (.point p)
  | drawPoint {C : CurveParams} [C.InCycle] {stream : ByteStream} {position limit next : Nat}
      {p : JacobianPoint C} (h : JacobianPoint.draw stream position limit = some (p, next)) :
      Obtainable (.point p)
  | drawManyPoints {C : CurveParams} [C.InCycle] {stream : ByteStream}
      {limit position count next : Nat} {drawn : List (JacobianPoint C)} {p : JacobianPoint C}
      (h : JacobianPoint.drawMany stream limit position count = some (drawn, next))
      (hp : p ∈ drawn) : Obtainable (.point p)
  | pointOfStream {C : CurveParams} [C.InCycle] (stream : ByteStream) :
      Obtainable (.point (.ofStream stream : JacobianPoint C))
  | pointOfSeed {C : CurveParams} [C.InCycle] (seed : UInt64) :
      Obtainable (.point (.ofSeed seed : JacobianPoint C))
  | negate {C : CurveParams} [C.InCycle] {p : JacobianPoint C} (hp : Obtainable (.point p)) :
      Obtainable (.point p.negate)
  | addPoints {C : CurveParams} [C.InCycle] {p q : JacobianPoint C}
      (hp : Obtainable (.point p)) (hq : Obtainable (.point q)) : Obtainable (.point (p.add q))
  | subPoints {C : CurveParams} [C.InCycle] {p q : JacobianPoint C}
      (hp : Obtainable (.point p)) (hq : Obtainable (.point q)) : Obtainable (.point (p.sub q))
  | doublePoint {C : CurveParams} [C.InCycle] {p : JacobianPoint C}
      (hp : Obtainable (.point p)) : Obtainable (.point p.double)
  | scale {C : CurveParams} [C.InCycle] {p : JacobianPoint C} (hp : Obtainable (.point p))
      {k : FieldElement C.scalar} (hk : Obtainable (.element k)) : Obtainable (.point (p.scale k))
  | affineIdentity {C : CurveParams} [C.InCycle] :
      Obtainable (.affine (.identity : AffinePoint C))
  | defaultAffine {C : CurveParams} [C.InCycle] : Obtainable (.affine (default : AffinePoint C))
  | pair {C : CurveParams} [C.InCycle] {x y : FieldElement C.base}
      (hx : Obtainable (.element x)) (hy : Obtainable (.element y)) (infinity : Bool) :
      Obtainable (.affine (⟨x, y, infinity⟩ : AffinePoint C))
  | toAffine {C : CurveParams} [C.InCycle] {p : JacobianPoint C} (hp : Obtainable (.point p))
      (normalization : Normalization) : Obtainable (.affine (p.toAffine normalization))
  | affineOfJson {C : CurveParams} [C.InCycle] {text : String} {a : AffinePoint C}
      (h : AffinePoint.ofJson text = .ok a) : Obtainable (.affine a)

def IsCanonical : Value → Prop
  | @element M a => [M.IsProper] → a.IsCanonical
  | point p => p.IsCanonical
  | affine a => a.IsCanonical
  | _ => True

theorem isCanonical_point_of_scale {C : CurveParams} [C.InCycle] {p : JacobianPoint C}
    (h : ∃ k, p = JacobianPoint.generator.scale k) : (point p).IsCanonical := by
  obtain ⟨k, rfl⟩ := h
  exact JacobianPoint.isCanonical_scale one_lt_base_modulus JacobianPoint.isCanonical_generator k

theorem Obtainable.isCanonical {v : Value} (h : v.Obtainable) : v.IsCanonical := by
  -- Most operations reduce, whatever their operands are. The hypotheses of the induction are needed
  -- where an operand or a part of one may come back as it is.
  induction h with
  | zero => intro hM; exact FieldElement.isCanonical_zero
  | one => intro hM; exact FieldElement.isCanonical_one hM.one_lt
  | default => intro hM; exact FieldElement.isCanonical_zero
  | ofInteger h => intro hM; exact FieldElement.isCanonical_of_ofInteger h
  | ofBytes h => intro hM; exact FieldElement.isCanonical_of_ofBytes h
  | ofByteList h => intro hM; exact FieldElement.isCanonical_of_ofByteList h
  | ofDecimal h => intro hM; exact FieldElement.isCanonical_of_ofDecimal h
  | ofJson h => intro hM; exact FieldElement.isCanonical_of_ofJson h
  | ofInt64 n => intro hM; exact FieldElement.isCanonical_ofInt64 n
  | ofUInt64 n => intro hM; exact FieldElement.isCanonical_ofUInt64 n
  | draw h => intro hM; exact FieldElement.isCanonical_of_draw h
  | drawMany h ha => intro hM; exact FieldElement.isCanonical_of_drawMany h ha
  | ofStream stream => intro hM; exact FieldElement.isCanonical_ofStream stream
  | ofSeed seed => intro hM; exact FieldElement.isCanonical_ofStream _
  | twoAdicRoot => intro hM; exact FieldElement.isCanonical_twoAdicRoot
  | domainGenerator h => intro hM; exact FieldElement.isCanonical_of_domainGenerator h
  | add => intro hM; exact FieldElement.isCanonical_add _ _
  | sub => intro hM; exact FieldElement.isCanonical_sub _ _
  | mul => intro hM; exact FieldElement.isCanonical_mul _ _
  | neg => intro hM; exact FieldElement.isCanonical_neg _
  | square => intro hM; exact FieldElement.isCanonical_square _
  | double => intro hM; exact FieldElement.isCanonical_double _
  | squareTimes _ n iha => intro hM; exact FieldElement.isCanonical_squareTimes iha n
  | pow _ exponent => intro hM; exact FieldElement.isCanonical_pow hM.one_lt _ exponent
  | inverse _ h => intro hM; exact (FieldElement.of_inverse_eq_ok hM.one_lt h).1
  | div _ _ h => intro hM; exact FieldElement.isCanonical_of_div h
  | sqrt _ h => intro hM; exact FieldElement.isCanonical_of_sqrt h
  | coefficient => intro hM; exact FieldElement.isCanonical_ofUInt64 _
  | endoBase => intro hM; exact CurveParams.isCanonical_endoBase
  | endoScalar => intro hM; exact CurveParams.isCanonical_endoScalar
  | x _ ihp => intro hM; exact ihp.x
  | y _ ihp => intro hM; exact ihp.y
  | z _ ihp => intro hM; exact ihp.z
  | affineX _ iha => intro hM; exact iha.x
  | affineY _ iha => intro hM; exact iha.y
  | identity => exact JacobianPoint.isCanonical_identity one_lt_base_modulus
  | defaultPoint => exact JacobianPoint.isCanonical_identity one_lt_base_modulus
  | generator => exact JacobianPoint.isCanonical_generator
  | ofCoordinates _ _ ihx ihy =>
      exact JacobianPoint.isCanonical_ofCoordinates one_lt_base_modulus ihx ihy
  | triple _ _ _ ihx ihy ihz => exact ⟨ihx, ihy, ihz⟩
  | toJacobian _ iha => exact JacobianPoint.isCanonical_toJacobian one_lt_base_modulus iha
  | pointOfJson h => exact JacobianPoint.isCanonical_of_ofJson h
  | drawPoint h => exact isCanonical_point_of_scale (JacobianPoint.exists_scale_of_draw h)
  | drawManyPoints h hp =>
      exact isCanonical_point_of_scale (JacobianPoint.exists_scale_of_drawMany h hp)
  | pointOfStream stream => exact isCanonical_point_of_scale ⟨_, rfl⟩
  | pointOfSeed seed => exact isCanonical_point_of_scale ⟨_, rfl⟩
  | negate _ ihp => exact JacobianPoint.isCanonical_negate ihp
  | addPoints => exact JacobianPoint.isCanonical_add _ _
  | subPoints => exact JacobianPoint.isCanonical_sub _ _
  | doublePoint _ ihp => exact JacobianPoint.isCanonical_double ihp
  | scale _ _ ihp => exact JacobianPoint.isCanonical_scale one_lt_base_modulus ihp _
  | affineIdentity => exact AffinePoint.isCanonical_identity one_lt_base_modulus
  | defaultAffine => exact AffinePoint.isCanonical_identity one_lt_base_modulus
  | pair _ _ infinity ihx ihy => exact ⟨ihx, ihy⟩
  | toAffine _ normalization ihp =>
      exact JacobianPoint.isCanonical_toAffine one_lt_base_modulus ihp normalization
  | affineOfJson h => exact AffinePoint.isCanonical_of_ofJson h

/-- Whatever is obtained is below its modulus: elements of every proper field, the coordinates of
points in either form, and the constants of the curves that are taken without a check. -/
theorem obtainable_values_below_modulus :
    (∀ (M : FieldParams) (a : FieldElement M), 2 ≤ M.modulus.toNat →
      M.twoAdicRoot.toNat < M.modulus.toNat → (element a).Obtainable →
      a.toInteger.toNat < M.modulus.toNat) ∧
    ∀ (C : CurveParams) [C.InCycle],
      (∀ p : JacobianPoint C, (point p).Obtainable →
        p.x.toInteger.toNat < C.base.modulus.toNat ∧
        p.y.toInteger.toNat < C.base.modulus.toNat ∧
        p.z.toInteger.toNat < C.base.modulus.toNat) ∧
      (∀ a : AffinePoint C, (affine a).Obtainable →
        a.x.toInteger.toNat < C.base.modulus.toNat ∧
        a.y.toInteger.toNat < C.base.modulus.toNat) ∧
      C.generatorX.toNat < C.base.modulus.toNat ∧ C.generatorY.toNat < C.base.modulus.toNat ∧
      C.endoBase.toNat < C.base.modulus.toNat ∧
      C.endoScalar.toNat < C.scalar.modulus.toNat := by
  refine ⟨?_, fun C _ => ⟨?_, ?_, ?_⟩⟩
  · intro M a hM hroot h
    have : M.IsProper := ⟨hM, hroot⟩
    exact h.isCanonical
  · intro p h
    have hp : p.IsCanonical := h.isCanonical
    exact ⟨hp.x, hp.y, hp.z⟩
  · intro a h
    have ha : a.IsCanonical := h.isCanonical
    exact ⟨ha.x, ha.y⟩
  · have hg : (JacobianPoint.generator : JacobianPoint C).IsCanonical :=
      JacobianPoint.isCanonical_generator
    exact ⟨hg.x, hg.y, CurveParams.isCanonical_endoBase, CurveParams.isCanonical_endoScalar⟩

theorem negative_one_and_double_below_modulus :
    (-1 : FieldElement .largest).toInteger.toNat < FieldParams.largest.modulus.toNat ∧
      ((JacobianPoint.generator.double.toAffine .exact : AffinePoint .pallas).x.toInteger.toNat <
        CurveParams.pallas.base.modulus.toNat) :=
  have helement := obtainable_values_below_modulus.1 .largest
  have haffine := (obtainable_values_below_modulus.2 .pallas).2.1
  ⟨helement (-1) (by decide) (by decide) (.neg .one),
    (haffine _ (.toAffine (.doublePoint .generator) .exact)).1⟩

end PallasVesta.Value
