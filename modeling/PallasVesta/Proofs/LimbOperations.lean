import Mathlib.Data.Nat.Digits.Defs
import Mathlib.Order.Bounds.Defs
import PallasVesta.Proofs.Product

namespace PallasVesta.UInt256

theorem toNat_eq_ofDigits (a : UInt256) :
    a.toNat = Nat.ofDigits (2 ^ 64) ((List.range 4).map fun i => (a.limb i).toNat) := by
  have hlimbs : (List.range 4).map (fun i => (a.limb i).toNat) =
      [a.limb0.toNat, a.limb1.toNat, a.limb2.toNat, a.limb3.toNat] := rfl
  rw [hlimbs]
  simp only [Nat.ofDigits_cons, Nat.ofDigits_nil, Nat.mul_zero, Nat.add_zero]
  rfl

theorem toNat_sub_toNat (a b : UInt256) :
    (a.toNat : ℤ) - b.toNat =
      (a.subBorrow b).1.toNat - (a.subBorrow b).2.toNat * 2 ^ 256 := by
  have hexact := subBorrow_exact a b
  simp only [size] at hexact
  omega

theorem subBorrow_borrow_iff (a b : UInt256) :
    (a.subBorrow b).2 = true ↔ a.toNat < b.toNat := by
  have hexact := subBorrow_exact a b
  have hlt := toNat_lt (a.subBorrow b).1
  cases hborrow : (a.subBorrow b).2 with
  | false =>
      rw [hborrow, Bool.toNat_false, Nat.mul_zero, Nat.add_zero] at hexact
      simp only [Bool.false_eq_true, false_iff, Nat.not_lt]
      omega
  | true =>
      rw [hborrow, Bool.toNat_true, Nat.mul_one] at hexact
      simp only [true_iff]
      omega

theorem toNat_wideningAdd_lt (a b : UInt256) : (a.wideningAdd b).toNat < 2 ^ 257 := by
  have ha := a.toNat_lt_two_pow
  have hb := b.toNat_lt_two_pow
  rw [toNat_wideningAdd]
  omega

theorem compare_eq_compare_toNat (a b : UInt256) :
    a.compare b = compare a.toNat b.toNat := by
  cases h : a.compare b with
  | lt => exact (Nat.compare_eq_lt.2 ((compare_eq_lt_iff a b).1 h)).symm
  | eq =>
      rw [(compare_eq_eq_iff a b).1 h]
      exact (Nat.compare_eq_eq.2 rfl).symm
  | gt =>
      have hgt : ¬a ≤ b := fun hle => hle h
      rw [le_iff_toNat_le, Nat.not_le] at hgt
      exact (Nat.compare_eq_gt.2 hgt).symm

theorem bit_of_le (a : UInt256) {i : Nat} (h : 256 ≤ i) : a.bit i = false := by
  rw [bit_eq_testBit]
  apply Nat.testBit_lt_two_pow
  exact Nat.lt_of_lt_of_le a.toNat_lt_two_pow (Nat.pow_le_pow_right (by decide) h)

theorem isLeast_bitLength (a : UInt256) : IsLeast {n | a.toNat < 2 ^ n} a.bitLength := by
  rw [bitLength_eq_size]
  constructor
  · exact Nat.lt_size_self _
  · intro n hn
    exact Nat.size_le.2 hn

theorem length_bits (a : UInt256) : a.bits.length = a.bitLength := by
  rw [bits, List.length_map, List.length_range]

/-- A 256-bit integer is its limbs in base `2 ^ 64`, and the operations on the limbs are those on
the integers. -/
theorem limb_operations_are_exact (a b : UInt256) :
    a.toNat = Nat.ofDigits (2 ^ 64) ((List.range 4).map fun i => (a.limb i).toNat) ∧
    a.toNat + b.toNat = (a.addCarry b).1.toNat + (a.addCarry b).2.toNat * 2 ^ 256 ∧
    ((a.toNat : ℤ) - b.toNat =
        (a.subBorrow b).1.toNat - (a.subBorrow b).2.toNat * 2 ^ 256 ∧
      ((a.subBorrow b).2 = true ↔ a.toNat < b.toNat)) ∧
    ((a.wideningAdd b).toNat = a.toNat + b.toNat ∧ (a.wideningAdd b).toNat < 2 ^ 257) ∧
    (∀ carry, 2 * a.toNat + carry.toNat =
      (a.shiftLeftOne carry).1.toNat + (a.shiftLeftOne carry).2.toNat * 2 ^ 256) ∧
    a.shiftRightOne.toNat = a.toNat / 2 ∧
    (a.compare b = compare a.toNat b.toNat ∧ (a.compare b = .eq ↔ a = b)) ∧
    ((∀ i, a.bit i = a.toNat.testBit i) ∧ ∀ i, 256 ≤ i → a.bit i = false) ∧
    IsLeast {n | a.toNat < 2 ^ n} a.bitLength ∧
    a.bits.length = a.bitLength ∧ binaryValue a.bits = a.toNat := by
  refine ⟨a.toNat_eq_ofDigits, ?_, ⟨a.toNat_sub_toNat b, a.subBorrow_borrow_iff b⟩,
    ⟨a.toNat_wideningAdd b, a.toNat_wideningAdd_lt b⟩, ?_, a.toNat_shiftRightOne,
    ⟨a.compare_eq_compare_toNat b, a.compare_eq_eq_iff b⟩,
    ⟨a.bit_eq_testBit, fun _ => a.bit_of_le⟩, a.isLeast_bitLength, a.length_bits,
    a.binaryValue_bits⟩
  · have hexact := addCarry_exact a b
    rw [Nat.mul_comm] at hexact
    exact hexact.symm
  · intro carry
    have hexact := shiftLeftOne_exact a carry
    rw [Nat.mul_comm UInt256.size] at hexact
    exact hexact.symm

theorem limb_operations_past_the_top :
    256 ≤ 300 ∧ one.bit 300 = false ∧
      (one.subBorrow ⟨0, 0, 0, 0x8000000000000000⟩).2 = true ∧
      (1 : ℤ) - 2 ^ 255 = (⟨1, 0, 0, 0x8000000000000000⟩ : UInt256).toNat - 2 ^ 256 := by
  obtain ⟨-, -, ⟨hdifference, hborrow⟩, -, -, -, -, ⟨-, habove⟩, -⟩ :=
    limb_operations_are_exact one ⟨0, 0, 0, 0x8000000000000000⟩
  have hresult : one.subBorrow ⟨0, 0, 0, 0x8000000000000000⟩ =
      (⟨1, 0, 0, 0x8000000000000000⟩, true) := by decide
  rw [hresult, Bool.toNat_true, Nat.cast_one, one_mul] at hdifference
  exact ⟨by decide, habove 300 (by decide), hborrow.2 (by decide), hdifference⟩

end PallasVesta.UInt256
