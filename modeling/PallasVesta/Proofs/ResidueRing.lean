import Mathlib.Tactic.Ring
import PallasVesta.Proofs.FieldRing

namespace PallasVesta

theorem toNat_toUInt64_of_nonneg {n : Int64} (h : ¬n < 0) : (n.toUInt64.toNat : Int) = n.toInt := by
  have hlt := n.toBitVec.isLt
  rw [Int64.lt_iff_toInt_lt, ← Int64.toInt_toBitVec, BitVec.toInt_eq_toNat_cond,
    Int64.toInt_zero] at h
  rw [← Int64.toNat_toBitVec, ← Int64.toInt_toBitVec, BitVec.toInt_eq_toNat_cond]
  split at h <;> omega

/-- Also for `-2 ^ 63`, which is its own negation. -/
theorem toNat_toUInt64_neg {n : Int64} (h : n < 0) : ((-n).toUInt64.toNat : Int) = -n.toInt := by
  have hlt := n.toBitVec.isLt
  rw [Int64.lt_iff_toInt_lt, ← Int64.toInt_toBitVec, BitVec.toInt_eq_toNat_cond,
    Int64.toInt_zero] at h
  rw [← Int64.toNat_toBitVec, Int64.toBitVec_neg, BitVec.toNat_neg, ← Int64.toInt_toBitVec,
    BitVec.toInt_eq_toNat_cond]
  split at h <;> omega

/-- The largest modulus of all, `2 ^ 256 - 1`, which is divisible by three. -/
def FieldParams.largest : FieldParams where
  name := "largest"
  modulus := ⟨0xffffffffffffffff, 0xffffffffffffffff, 0xffffffffffffffff, 0xffffffffffffffff⟩
  oddFactor := .one
  twoAdicRoot := .one

namespace FieldElement

variable {M : FieldParams}

section Residues

variable [hM : NeZero M.modulus.toNat] (a b : FieldElement M)

theorem toNat_add : (a + b).value.toNat = (a.value.toNat + b.value.toNat) % M.modulus.toNat := by
  apply Signed.toNat_residue_of_toInt_eq _ hM.out
  rw [Signed.toInt_ofUInt512, UInt256.toNat_wideningAdd]

theorem toNat_mul : (a * b).value.toNat = a.value.toNat * b.value.toNat % M.modulus.toNat := by
  apply Signed.toNat_residue_of_toInt_eq _ hM.out
  rw [Signed.toInt_ofUInt512, UInt256.toNat_wideningMul]

theorem toNat_square : a.square.value.toNat = a.value.toNat ^ 2 % M.modulus.toNat := by
  rw [square, toNat_mul, sq]

theorem toNat_double : a.double.value.toNat = 2 * a.value.toNat % M.modulus.toNat := by
  rw [double, toNat_add, two_mul]

theorem toNat_sub :
    ((a - b).value.toNat : Int) = ((a.value.toNat : Int) - b.value.toNat) % M.modulus.toNat := by
  rw [← Signed.toInt_difference]
  exact toNat_reduce _

theorem toNat_neg : ((-a).value.toNat : Int) = -(a.value.toNat : Int) % M.modulus.toNat := by
  rw [← zero_sub, ← Nat.cast_zero, ← UInt256.toNat_zero, ← Signed.toInt_difference]
  exact toNat_reduce _

theorem toNat_ofUInt64 (n : UInt64) :
    (ofUInt64 n : FieldElement M).value.toNat = n.toNat % M.modulus.toNat := by
  rw [← UInt256.toNat_ofLimb]
  exact Signed.toNat_residue_ofUInt256 _ hM.out

theorem toNat_ofInt64 (n : Int64) :
    ((ofInt64 n : FieldElement M).value.toNat : Int) = n.toInt % M.modulus.toNat := by
  rw [ofInt64]
  split
  · next hneg =>
      rw [toNat_reduce, Signed.toInt, if_pos rfl, Signed.toNat_ofUInt256, UInt256.toNat_ofLimb,
        toNat_toUInt64_neg hneg, neg_neg]
  · next hnonneg =>
      rw [toNat_reduce, Signed.toInt_ofUInt256, UInt256.toNat_ofLimb,
        toNat_toUInt64_of_nonneg hnonneg]

end Residues

abbrev Canonical (M : FieldParams) := {a : FieldElement M // a.IsCanonical}

namespace Canonical

def toZMod (a : Canonical M) : ZMod M.modulus.toNat := a.val.toZMod

theorem toZMod_injective : Function.Injective (toZMod : Canonical M → ZMod M.modulus.toNat) :=
  fun a b h => Subtype.ext ((a.property.toZMod_inj b.property).1 h)

variable [hM : Fact (1 < M.modulus.toNat)]

instance : Zero (Canonical M) := ⟨0, isCanonical_zero⟩

instance : One (Canonical M) := ⟨1, isCanonical_one hM.out⟩

instance : Add (Canonical M) := ⟨fun a b => ⟨a.val + b.val, isCanonical_add _ _⟩⟩

instance : Sub (Canonical M) := ⟨fun a b => ⟨a.val - b.val, isCanonical_sub _ _⟩⟩

instance : Neg (Canonical M) := ⟨fun a => ⟨-a.val, isCanonical_neg _⟩⟩

instance : Mul (Canonical M) := ⟨fun a b => ⟨a.val * b.val, isCanonical_mul _ _⟩⟩

@[simp]
theorem toZMod_zero : (0 : Canonical M).toZMod = 0 := FieldElement.toZMod_zero

@[simp]
theorem toZMod_one : (1 : Canonical M).toZMod = 1 := FieldElement.toZMod_one

@[simp]
theorem toZMod_add (a b : Canonical M) : (a + b).toZMod = a.toZMod + b.toZMod :=
  FieldElement.toZMod_add _ _

@[simp]
theorem toZMod_sub (a b : Canonical M) : (a - b).toZMod = a.toZMod - b.toZMod :=
  FieldElement.toZMod_sub _ _

@[simp]
theorem toZMod_neg (a : Canonical M) : (-a).toZMod = -a.toZMod :=
  FieldElement.toZMod_neg _

@[simp]
theorem toZMod_mul (a b : Canonical M) : (a * b).toZMod = a.toZMod * b.toZMod :=
  FieldElement.toZMod_mul _ _

instance : CommRing (Canonical M) where
  add_assoc a b c := toZMod_injective (by simp [add_assoc])
  zero_add a := toZMod_injective (by simp)
  add_zero a := toZMod_injective (by simp)
  add_comm a b := toZMod_injective (by simp [add_comm])
  neg_add_cancel a := toZMod_injective (by simp)
  sub_eq_add_neg a b := toZMod_injective (by simp [sub_eq_add_neg])
  mul_assoc a b c := toZMod_injective (by simp [mul_assoc])
  one_mul a := toZMod_injective (by simp)
  mul_one a := toZMod_injective (by simp)
  mul_comm a b := toZMod_injective (by simp [mul_comm])
  left_distrib a b c := toZMod_injective (by simp [mul_add])
  right_distrib a b c := toZMod_injective (by simp [add_mul])
  zero_mul a := toZMod_injective (by simp)
  mul_zero a := toZMod_injective (by simp)
  nsmul := nsmulRec
  zsmul := zsmulRec

end Canonical

/-- Every operation gives the residue of the integer result, from zero up, and so the laws of a
commutative ring hold between elements. -/
theorem arithmetic_is_modular (M : FieldParams) (hM : 2 ≤ M.modulus.toNat) :
    (∀ a b : FieldElement M,
      (a + b).value.toNat = (a.value.toNat + b.value.toNat) % M.modulus.toNat ∧
      ((a - b).value.toNat : Int) = ((a.value.toNat : Int) - b.value.toNat) % M.modulus.toNat ∧
      ((-a).value.toNat : Int) = (-(a.value.toNat : Int)) % M.modulus.toNat ∧
      (a * b).value.toNat = a.value.toNat * b.value.toNat % M.modulus.toNat ∧
      a.square.value.toNat = a.value.toNat ^ 2 % M.modulus.toNat ∧
      a.double.value.toNat = 2 * a.value.toNat % M.modulus.toNat) ∧
    (∀ n : Int64, ((ofInt64 n : FieldElement M).value.toNat : Int) = n.toInt % M.modulus.toNat) ∧
    (∀ n : UInt64, (ofUInt64 n : FieldElement M).value.toNat = n.toNat % M.modulus.toNat) ∧
    ∀ a b c : FieldElement M, a.IsCanonical → b.IsCanonical → c.IsCanonical →
      a + b + c = a + (b + c) ∧ a + b = b + a ∧ a + 0 = a ∧ a + -a = 0 ∧ a + b - b = a ∧
      a * b * c = a * (b * c) ∧ a * b = b * a ∧ a * 1 = a ∧ a * (b + c) = a * b + a * c := by
  have : Fact (1 < M.modulus.toNat) := ⟨hM⟩
  refine ⟨?_, toNat_ofInt64, toNat_ofUInt64, ?_⟩
  · intro a b
    exact ⟨toNat_add a b, toNat_sub a b, toNat_neg a, toNat_mul a b, toNat_square a, toNat_double a⟩
  · intro a b c ha hb hc
    let x : Canonical M := ⟨a, ha⟩
    let y : Canonical M := ⟨b, hb⟩
    let z : Canonical M := ⟨c, hc⟩
    have law {u v : Canonical M} (h : u = v) : u.val = v.val := congrArg Subtype.val h
    exact ⟨law (add_assoc x y z), law (add_comm x y), law (add_zero x), law (add_neg_cancel x),
      law (add_sub_cancel_right x y), law (mul_assoc x y z), law (mul_comm x y), law (mul_one x),
      law (mul_add x y z)⟩

def top : FieldElement .largest :=
  ⟨⟨0xfffffffffffffffe, 0xffffffffffffffff, 0xffffffffffffffff, 0xffffffffffffffff⟩⟩

theorem arithmetic_at_largest_modulus :
    2 ≤ FieldParams.largest.modulus.toNat ∧ top.IsCanonical ∧
      (top + top).value.toNat = 2 ^ 256 - 3 ∧ top + top - top = top ∧
      (ofInt64 (-0x8000000000000000) : FieldElement .largest).value.toNat =
        2 ^ 256 - 1 - 2 ^ 63 :=
  have hM : 2 ≤ FieldParams.largest.modulus.toNat := by decide
  have htop : top.IsCanonical := by
    rw [IsCanonical]
    decide
  have h := arithmetic_is_modular .largest hM
  ⟨hM, htop, (h.1 top top).1.trans (by decide),
    (h.2.2.2 top top top htop htop htop).2.2.2.2.1,
    Int.ofNat_inj.1 ((h.2.1 (-0x8000000000000000)).trans (by decide))⟩

end FieldElement

end PallasVesta
