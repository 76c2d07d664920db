import PallasVesta.Curve.Jacobian
import PallasVesta.Proofs.AffineCoordinates
import PallasVesta.Proofs.SquareRoots

namespace PallasVesta

/-- The modulus has at least two residues, and the constant that no operation checks is one. -/
class FieldParams.IsProper (M : FieldParams) : Prop where
  one_lt : 1 < M.modulus.toNat
  root_lt : M.twoAdicRoot.toNat < M.modulus.toNat

instance (M : FieldParams) [hM : M.IsProper] : NeZero M.modulus.toNat :=
  ⟨(Nat.zero_lt_of_lt hM.one_lt).ne'⟩

instance : FieldParams.fp.IsProper := ⟨by decide, by decide⟩

instance : FieldParams.fq.IsProper := ⟨by decide, by decide⟩

namespace FieldElement

variable {M : FieldParams}

section Readers

variable {a : FieldElement M}

theorem isCanonical_of_ofInteger {value : UInt256} (h : ofInteger value = .ok a) :
    a.IsCanonical := by
  rw [ofInteger] at h
  split at h
  · next hlt =>
      rw [← Except.ok.inj h]
      exact UInt256.lt_iff_toNat_lt.1 hlt
  · nomatch h

theorem isCanonical_of_ofBytes {bytes : Vector UInt8 32} (h : ofBytes bytes = .ok a) :
    a.IsCanonical :=
  isCanonical_of_ofInteger h

theorem isCanonical_of_ofByteList {bytes : List UInt8} (h : ofByteList bytes = .ok a) :
    a.IsCanonical := by
  rw [ofByteList] at h
  split at h
  · exact isCanonical_of_ofBytes h
  · nomatch h

theorem isCanonical_of_ofDecimal {text : String} (h : ofDecimal text = .ok a) :
    a.IsCanonical := by
  rw [ofDecimal] at h
  cases hvalue : UInt256.ofDecimal text with
  | error cause =>
      rw [hvalue] at h
      nomatch h
  | ok value =>
      rw [hvalue] at h
      exact isCanonical_of_ofInteger h

theorem isCanonical_of_draw {stream : ByteStream} {position limit next : Nat}
    (h : draw stream position limit = some (a, next)) : a.IsCanonical := by
  induction limit generalizing position with
  | zero => nomatch h
  | succ limit ih =>
      rw [draw] at h
      split at h
      · next hok =>
          rw [← (Prod.mk.inj (Option.some.inj h)).1]
          exact isCanonical_of_ofInteger hok
      · exact ih h

theorem isCanonical_of_drawMany {stream : ByteStream} {limit position count next : Nat}
    {drawn : List (FieldElement M)} (h : drawMany stream limit position count = some (drawn, next))
    (ha : a ∈ drawn) : a.IsCanonical := by
  induction count generalizing position drawn next with
  | zero =>
      rw [← (Prod.mk.inj (Option.some.inj h)).1] at ha
      nomatch ha
  | succ count ih =>
      rw [drawMany] at h
      obtain ⟨⟨first, position⟩, hfirst, h⟩ := Option.bind_eq_some_iff.1 h
      obtain ⟨⟨rest, last⟩, hrest, h⟩ := Option.bind_eq_some_iff.1 h
      rw [← (Prod.mk.inj (Option.some.inj h)).1] at ha
      cases ha with
      | head => exact isCanonical_of_draw hfirst
      | tail _ ha => exact ih hrest ha

end Readers

section Proper

variable [hM : M.IsProper]

theorem isCanonical_ofStream (stream : ByteStream) :
    (ofStream stream : FieldElement M).IsCanonical := by
  rw [ofStream]
  split
  · next h => exact isCanonical_of_draw h
  · exact isCanonical_zero

theorem isCanonical_ofInt64 (n : Int64) : (ofInt64 n : FieldElement M).IsCanonical := by
  rw [ofInt64]
  split <;> exact isCanonical_reduce _

theorem isCanonical_twoAdicRoot : (twoAdicRoot : FieldElement M).IsCanonical := hM.root_lt

theorem isCanonical_of_domainGenerator {log2Size : Nat} {a : FieldElement M}
    (h : domainGenerator log2Size = .ok a) : a.IsCanonical := by
  rw [domainGenerator] at h
  split at h
  · rw [← Except.ok.inj h]
    exact isCanonical_one hM.one_lt
  · split at h
    · rw [← Except.ok.inj h]
      exact isCanonical_squareTimes isCanonical_twoAdicRoot _
    · nomatch h

theorem isCanonical_of_div {a b c : FieldElement M} (h : a.div b = .ok c) : c.IsCanonical := by
  rw [div] at h
  cases hinverse : b.inverse with
  | error cause =>
      rw [hinverse] at h
      cases h
  | ok inverse =>
      rw [hinverse] at h
      rw [← Except.ok.inj h]
      exact isCanonical_mul _ _

theorem isCanonical_of_sqrt {a r : FieldElement M} (h : a.sqrt = some r) : r.IsCanonical := by
  have hroot : (RootSearch.start a).root.IsCanonical := isCanonical_pow hM.one_lt a _
  exact RootSearch.isCanonical_of_run hroot h

end Proper

end FieldElement

variable {C : CurveParams}

namespace CurveParams

variable [hC : C.InCycle]

instance : C.base.IsProper := by
  rcases hC.eq_or_eq with rfl | rfl
  · exact inferInstanceAs FieldParams.fp.IsProper
  · exact inferInstanceAs FieldParams.fq.IsProper

theorem one_lt_base_modulus : 1 < C.base.modulus.toNat := FieldParams.IsProper.one_lt

theorem isCanonical_endoBase : C.endoBaseElement.IsCanonical := by
  rw [FieldElement.IsCanonical]
  rcases hC.eq_or_eq with rfl | rfl <;> decide

theorem isCanonical_endoScalar : C.endoScalarElement.IsCanonical := by
  rw [FieldElement.IsCanonical]
  rcases hC.eq_or_eq with rfl | rfl <;> decide

end CurveParams

namespace AffinePoint

structure IsCanonical (a : AffinePoint C) : Prop where
  x : a.x.IsCanonical
  y : a.y.IsCanonical

theorem isCanonical_identity (hM : 1 < C.base.modulus.toNat) :
    (identity : AffinePoint C).IsCanonical :=
  ⟨FieldElement.isCanonical_one hM, FieldElement.isCanonical_one hM⟩

end AffinePoint

namespace JacobianPoint

theorem isCanonical_ofCoordinates (hM : 1 < C.base.modulus.toNat) {x y : FieldElement C.base}
    (hx : x.IsCanonical) (hy : y.IsCanonical) :
    (ofCoordinates x y : JacobianPoint C).IsCanonical :=
  ⟨hx, hy, FieldElement.isCanonical_one hM⟩

theorem isCanonical_toJacobian (hM : 1 < C.base.modulus.toNat) {a : AffinePoint C}
    (ha : a.IsCanonical) : a.toJacobian.IsCanonical := by
  have : NeZero C.base.modulus.toNat := ⟨by omega⟩
  rw [AffinePoint.toJacobian]
  split
  · exact isCanonical_identity hM
  · exact isCanonical_ofCoordinates hM ha.x ha.y

theorem isCanonical_toAffine (hM : 1 < C.base.modulus.toNat) {p : JacobianPoint C}
    (hp : p.IsCanonical) (normalization : Normalization) :
    (p.toAffine normalization).IsCanonical := by
  have : NeZero C.base.modulus.toNat := ⟨by omega⟩
  rw [toAffine.eq_def]
  split
  · exact ⟨hp.x, hp.y⟩
  · split
    · exact AffinePoint.isCanonical_identity hM
    · exact ⟨FieldElement.isCanonical_mul _ _, FieldElement.isCanonical_mul _ _⟩

end JacobianPoint

end PallasVesta
