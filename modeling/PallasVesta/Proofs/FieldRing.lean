import Mathlib.Data.ZMod.Basic
import PallasVesta.Field.Basic
import PallasVesta.Proofs.Residue

namespace PallasVesta

namespace UInt256

def ofNat (n : Nat) : UInt256 :=
  ⟨.ofNat n, .ofNat (n / Limb.size), .ofNat (n / Limb.size / Limb.size),
    .ofNat (n / Limb.size / Limb.size / Limb.size)⟩

theorem toNat_ofNat {n : Nat} (h : n < size) : (ofNat n).toNat = n := by
  simp only [ofNat, toNat, UInt64.toNat_ofNat', Limb.size, size] at h ⊢
  omega

end UInt256

namespace FieldElement

variable {M : FieldParams}

def toZMod (a : FieldElement M) : ZMod M.modulus.toNat := a.value.toNat

def ofZMod (x : ZMod M.modulus.toNat) : FieldElement M := ⟨.ofNat x.val⟩

theorem ext_value {a b : FieldElement M} (h : a.value.toNat = b.value.toNat) : a = b := by
  obtain ⟨a⟩ := a
  obtain ⟨b⟩ := b
  exact congrArg mk (UInt256.toNat_inj.1 h)

theorem isZero_iff_eq_zero {a : FieldElement M} : a.isZero = true ↔ a = 0 := by
  rw [isZero, UInt256.isZero_iff]
  exact ⟨fun h => ext_value h, fun h => h ▸ rfl⟩

theorem IsCanonical.toZMod_inj {a b : FieldElement M} (ha : a.IsCanonical) (hb : b.IsCanonical) :
    a.toZMod = b.toZMod ↔ a = b := by
  constructor
  · intro h
    rw [toZMod, toZMod, ZMod.natCast_eq_natCast_iff, Nat.ModEq, Nat.mod_eq_of_lt ha,
      Nat.mod_eq_of_lt hb] at h
    exact ext_value h
  · exact congrArg toZMod

@[simp]
theorem toZMod_zero : (0 : FieldElement M).toZMod = 0 := Nat.cast_zero

@[simp]
theorem toZMod_one : (1 : FieldElement M).toZMod = 1 := Nat.cast_one

protected theorem zero_ne_one : (0 : FieldElement M) ≠ 1 := by
  intro h
  have hvalue : (0 : Nat) = 1 := congrArg (fun a : FieldElement M => a.value.toNat) h
  omega

theorem isCanonical_one (h : 1 < M.modulus.toNat) : (1 : FieldElement M).IsCanonical := h

section

variable [hM : NeZero M.modulus.toNat]

theorem isCanonical_zero : (0 : FieldElement M).IsCanonical := Nat.pos_of_ne_zero hM.out

theorem IsCanonical.toZMod_eq_zero_iff {a : FieldElement M} (ha : a.IsCanonical) :
    a.toZMod = 0 ↔ a = 0 := by
  rw [← toZMod_zero, ha.toZMod_inj isCanonical_zero]

theorem toNat_ofZMod (x : ZMod M.modulus.toNat) : (ofZMod x : FieldElement M).value.toNat = x.val :=
  UInt256.toNat_ofNat (Nat.lt_trans x.val_lt M.modulus.toNat_lt)

theorem isCanonical_ofZMod (x : ZMod M.modulus.toNat) :
    (ofZMod x : FieldElement M).IsCanonical := by
  rw [IsCanonical, toNat_ofZMod]
  exact x.val_lt

@[simp]
theorem toZMod_ofZMod (x : ZMod M.modulus.toNat) : (ofZMod x : FieldElement M).toZMod = x := by
  rw [toZMod, toNat_ofZMod, ZMod.natCast_zmod_val]

theorem ofZMod_injective :
    Function.Injective (ofZMod : ZMod M.modulus.toNat → FieldElement M) := by
  intro x y h
  rw [← toZMod_ofZMod x, h, toZMod_ofZMod]

theorem IsCanonical.ofZMod_eq_iff {a : FieldElement M} (ha : a.IsCanonical)
    {x : ZMod M.modulus.toNat} : ofZMod x = a ↔ a.toZMod = x := by
  rw [← (isCanonical_ofZMod x).toZMod_inj ha, toZMod_ofZMod, eq_comm]

/-- The representative after a reduction is the Euclidean remainder of the exact integer. -/
theorem toNat_reduce (s : Signed) :
    ((reduce s : FieldElement M).value.toNat : Int) = s.toInt % M.modulus.toNat :=
  s.toNat_residue hM.out

theorem isCanonical_reduce (s : Signed) : (reduce s : FieldElement M).IsCanonical :=
  s.toNat_residue_lt hM.out

theorem toZMod_reduce (s : Signed) : (reduce s : FieldElement M).toZMod = s.toInt := by
  rw [toZMod, ← Int.cast_natCast, toNat_reduce, ZMod.intCast_mod]

variable (a b : FieldElement M)

theorem isCanonical_add : (a + b).IsCanonical := isCanonical_reduce _

theorem isCanonical_sub : (a - b).IsCanonical := isCanonical_reduce _

theorem isCanonical_mul : (a * b).IsCanonical := isCanonical_reduce _

theorem isCanonical_neg : (-a).IsCanonical := isCanonical_reduce _

theorem isCanonical_square : a.square.IsCanonical := isCanonical_reduce _

theorem isCanonical_double : a.double.IsCanonical := isCanonical_reduce _

theorem isCanonical_ofUInt64 (n : UInt64) : (ofUInt64 n : FieldElement M).IsCanonical :=
  isCanonical_reduce _

@[simp]
theorem toZMod_add : (a + b).toZMod = a.toZMod + b.toZMod := by
  change (reduce (.ofUInt512 (a.value.wideningAdd b.value)) : FieldElement M).toZMod = _
  rw [toZMod_reduce, Signed.toInt_ofUInt512, UInt256.toNat_wideningAdd, Int.cast_natCast,
    Nat.cast_add, toZMod, toZMod]

@[simp]
theorem toZMod_sub : (a - b).toZMod = a.toZMod - b.toZMod := by
  change (reduce (.difference a.value b.value) : FieldElement M).toZMod = _
  rw [toZMod_reduce, Signed.toInt_difference, Int.cast_sub, Int.cast_natCast, Int.cast_natCast,
    toZMod, toZMod]

@[simp]
theorem toZMod_mul : (a * b).toZMod = a.toZMod * b.toZMod := by
  change (reduce (.ofUInt512 (a.value.wideningMul b.value)) : FieldElement M).toZMod = _
  rw [toZMod_reduce, Signed.toInt_ofUInt512, UInt256.toNat_wideningMul, Int.cast_natCast,
    Nat.cast_mul, toZMod, toZMod]

@[simp]
theorem toZMod_neg : (-a).toZMod = -a.toZMod := by
  change (reduce (.difference .zero a.value) : FieldElement M).toZMod = _
  rw [toZMod_reduce, Signed.toInt_difference, UInt256.toNat_zero, Int.cast_sub, Int.cast_natCast,
    Int.cast_natCast, Nat.cast_zero, zero_sub, toZMod]

@[simp]
theorem toZMod_square : a.square.toZMod = a.toZMod ^ 2 := by
  rw [square, toZMod_mul, sq]

@[simp]
theorem toZMod_double : a.double.toZMod = 2 * a.toZMod := by
  rw [double, toZMod_add, two_mul]

theorem toZMod_ofUInt64 (n : UInt64) : (ofUInt64 n : FieldElement M).toZMod = n.toNat := by
  rw [ofUInt64, toZMod_reduce, Signed.toInt_ofUInt256, UInt256.toNat_ofLimb, Int.cast_natCast]

end

end FieldElement

end PallasVesta
