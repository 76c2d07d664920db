import Mathlib.Data.Nat.Size
import Mathlib.Tactic.Ring
import PallasVesta.UInt256.Lemmas
import PallasVesta.UInt512

namespace PallasVesta

theorem mod_two_pow_succ (n i : Nat) :
    n % 2 ^ (i + 1) = n % 2 ^ i + 2 ^ i * (n.testBit i).toNat := by
  rw [Nat.mod_pow_succ, Nat.toNat_testBit]

theorem or_two_pow_eq_add {n i : Nat} (h : n.testBit i = false) : n ||| 2 ^ i = n + 2 ^ i := by
  have hlow : n % 2 ^ (i + 1) < 2 ^ i := by
    rw [mod_two_pow_succ, h, Bool.toNat_false, Nat.mul_zero, Nat.add_zero]
    exact Nat.mod_lt _ (Nat.two_pow_pos i)
  have hsum : n % 2 ^ (i + 1) + 2 ^ i < 2 ^ (i + 1) := by
    rw [Nat.two_pow_succ] at hlow ⊢
    exact Nat.add_lt_add_right hlow _
  calc n ||| 2 ^ i
      = (2 ^ (i + 1) * (n / 2 ^ (i + 1)) ||| n % 2 ^ (i + 1)) ||| 2 ^ i := by
        rw [← Nat.two_pow_add_eq_or_of_lt (Nat.mod_lt _ (Nat.two_pow_pos _)), Nat.div_add_mod]
    _ = 2 ^ (i + 1) * (n / 2 ^ (i + 1)) ||| (n % 2 ^ (i + 1) + 2 ^ i) := by
        rw [Nat.or_assoc, Nat.or_two_pow_eq_add_of_lt hlow]
    _ = n + 2 ^ i := by
        rw [← Nat.two_pow_add_eq_or_of_lt hsum, ← Nat.add_assoc, Nat.div_add_mod]

/-- The number with the given binary digits, least significant first. -/
def binaryValue : List Bool → Nat
  | [] => 0
  | bit :: bits => bit.toNat + 2 * binaryValue bits

theorem binaryValue_append (bits rest : List Bool) :
    binaryValue (bits ++ rest) = binaryValue bits + 2 ^ bits.length * binaryValue rest := by
  induction bits with
  | nil => simp [binaryValue]
  | cons bit bits ih =>
      rw [List.cons_append, binaryValue, ih, binaryValue, List.length_cons, pow_succ]
      ring

theorem binaryValue_lt (bits : List Bool) : binaryValue bits < 2 ^ bits.length := by
  induction bits with
  | nil => exact Nat.one_pos
  | cons bit bits ih =>
      have hbit := bit.toNat_le
      rw [binaryValue, List.length_cons, pow_succ]
      omega

theorem binaryValue_map_testBit (n width : Nat) :
    binaryValue ((List.range width).map n.testBit) = n % 2 ^ width := by
  induction width generalizing n with
  | zero => simp [binaryValue, Nat.mod_one]
  | succ width ih =>
      have htail : (List.range width).map (n.testBit ∘ Nat.succ) =
          (List.range width).map (n / 2).testBit := by
        apply List.map_congr_left
        intro i _
        exact Nat.testBit_succ n i
      have hbit : (decide (n % 2 = 1)).toNat = n % 2 := by
        rcases Nat.mod_two_eq_zero_or_one n with h | h <;> simp [h]
      rw [List.range_succ_eq_map, List.map_cons, List.map_map, htail, binaryValue, ih,
        Nat.testBit_zero, hbit, Nat.pow_succ, Nat.mul_comm (2 ^ width) 2, Nat.mod_mul]

theorem bitLengthBelow_testBit (n width : Nat) :
    bitLengthBelow n.testBit width = (n % 2 ^ width).size := by
  induction width with
  | zero => simp [bitLengthBelow, Nat.mod_one]
  | succ width ih =>
      have hlt := Nat.mod_lt n (Nat.two_pow_pos width)
      rw [bitLengthBelow, ih, mod_two_pow_succ]
      cases n.testBit width with
      | false => simp
      | true =>
          have hle : (n % 2 ^ width + 2 ^ width * true.toNat).size ≤ width + 1 := by
            rw [Nat.size_le, Nat.two_pow_succ, Bool.toNat_true]
            omega
          have hgt : width < (n % 2 ^ width + 2 ^ width * true.toNat).size := by
            rw [Nat.lt_size, Bool.toNat_true]
            omega
          rw [if_pos rfl]
          omega

namespace Limb

theorem toNat_toUInt64_mod {i : Nat} (hi : i < 64) : i.toUInt64.toNat % 64 = i := by
  simp only [Nat.toUInt64, UInt64.toNat_ofNat']
  omega

theorem bit_eq_testBit (a : Limb) {i : Nat} (hi : i < 64) :
    ((a >>> i.toUInt64) &&& 1 == 1) = a.toNat.testBit i := by
  rw [Bool.eq_iff_iff, beq_iff_eq, ← UInt64.toNat_inj, UInt64.toNat_and, UInt64.toNat_shiftRight,
    toNat_toUInt64_mod hi, UInt64.toNat_one, Nat.and_one_is_mod,
    Nat.testBit_eq_decide_div_mod_eq, Nat.shiftRight_eq_div_pow, decide_eq_true_eq]

theorem toNat_or_bit (a : Limb) {i : Nat} (hi : i < 64) (h : a.toNat.testBit i = false) :
    (a ||| 1 <<< i.toUInt64).toNat = a.toNat + 2 ^ i := by
  have hpow : (2 : Nat) ^ i < 2 ^ 64 := Nat.pow_lt_pow_right (by decide) hi
  rw [UInt64.toNat_or, UInt64.toNat_shiftLeft, toNat_toUInt64_mod hi, UInt64.toNat_one,
    Nat.one_shiftLeft, Nat.mod_eq_of_lt hpow, or_two_pow_eq_add h]

theorem toNat_shiftRight_or (a b : Limb) :
    (a >>> 1 ||| b <<< 63).toNat = a.toNat / 2 + 2 ^ 63 * (b.toNat % 2) := by
  have ha := a.toNat_lt
  have hhigh : (b <<< 63).toNat = 2 ^ 63 * (b.toNat % 2) := by
    simp [Nat.shiftLeft_eq]
    omega
  have hlow : (a >>> 1).toNat = a.toNat / 2 := by
    simp [Nat.shiftRight_eq_div_pow]
  rw [UInt64.toNat_or, hhigh, hlow, Nat.or_comm, ← Nat.two_pow_add_eq_or_of_lt (by omega),
    Nat.add_comm]

end Limb

namespace UInt256

theorem testBit_toNat (a : UInt256) (i : Nat) :
    a.toNat.testBit i = (a.limb (i / 64)).toNat.testBit (i % 64) := by
  have hvalue : a.toNat = 2 ^ 64 * (2 ^ 64 * (2 ^ 64 * a.limb3.toNat + a.limb2.toNat) +
      a.limb1.toNat) + a.limb0.toNat := by
    simp only [toNat, Limb.size]
    omega
  rw [hvalue, Nat.testBit_two_pow_mul_add _ a.limb0.toNat_lt,
    Nat.testBit_two_pow_mul_add _ a.limb1.toNat_lt, Nat.testBit_two_pow_mul_add _ a.limb2.toNat_lt]
  have hmod := Nat.mod_lt i (by decide : 64 > 0)
  have hdiv := Nat.div_add_mod i 64
  have hquotient : i / 64 = 0 ∨ i / 64 = 1 ∨ i / 64 = 2 ∨ i / 64 = 3 ∨ ∃ k, i / 64 = k + 4 := by
    by_cases hlow : i / 64 < 4
    · omega
    · exact Or.inr (Or.inr (Or.inr (Or.inr ⟨i / 64 - 4, by omega⟩)))
  rcases hquotient with hq | hq | hq | hq | ⟨k, hq⟩
  · rw [hq, if_pos (by omega), limb, show i % 64 = i by omega]
  · rw [hq, if_neg (by omega), if_pos (by omega), limb, show i % 64 = i - 64 by omega]
  · rw [hq, if_neg (by omega), if_neg (by omega), if_pos (by omega), limb,
      show i % 64 = i - 64 - 64 by omega]
  · rw [hq, if_neg (by omega), if_neg (by omega), if_neg (by omega), limb,
      show i % 64 = i - 64 - 64 - 64 by omega]
  · have hle : 2 ^ 64 ≤ 2 ^ (i - 64 - 64 - 64) := Nat.pow_le_pow_right (by decide) (by omega)
    rw [hq, if_neg (by omega), if_neg (by omega), if_neg (by omega), limb,
      Nat.testBit_lt_two_pow (Nat.lt_of_lt_of_le a.limb3.toNat_lt hle), UInt64.toNat_zero,
      Nat.zero_testBit]
    all_goals omega

theorem bit_eq_testBit (a : UInt256) (i : Nat) : a.bit i = a.toNat.testBit i := by
  rw [testBit_toNat, bit, Limb.bit_eq_testBit _ (Nat.mod_lt i (by decide))]

theorem toNat_lt_two_pow (a : UInt256) : a.toNat < 2 ^ 256 := a.toNat_lt

theorem bitLength_eq_size (a : UInt256) : a.bitLength = a.toNat.size := by
  have hbit : a.bit = a.toNat.testBit := funext a.bit_eq_testBit
  rw [bitLength, hbit, bitLengthBelow_testBit, Nat.mod_eq_of_lt a.toNat_lt_two_pow]

theorem bits_eq (a : UInt256) : a.bits = (List.range a.toNat.size).map a.toNat.testBit := by
  have hbit : a.bit = a.toNat.testBit := funext a.bit_eq_testBit
  rw [bits, hbit, bitLength_eq_size]

theorem binaryValue_bits (a : UInt256) : binaryValue a.bits = a.toNat := by
  rw [bits_eq, binaryValue_map_testBit, Nat.mod_eq_of_lt (Nat.lt_size_self _)]

theorem toNat_setLimb (a : UInt256) {i : Nat} (hi : i < 4) (l : Limb) :
    (a.setLimb i l).toNat + Limb.size ^ i * (a.limb i).toNat =
      a.toNat + Limb.size ^ i * l.toNat := by
  match i with
  | 0 | 1 | 2 | 3 => simp only [setLimb, limb, toNat, Limb.size]; omega

theorem toNat_setBit (a : UInt256) {i : Nat} (hi : i < 256) (h : a.toNat.testBit i = false) :
    (a.setBit i).toNat = a.toNat + 2 ^ i := by
  have hlimb := toNat_setLimb a (by omega : i / 64 < 4)
    (a.limb (i / 64) ||| 1 <<< (i % 64).toUInt64)
  rw [Limb.toNat_or_bit _ (Nat.mod_lt i (by decide)) (by rwa [← testBit_toNat]),
    Nat.mul_add] at hlimb
  have hpow : Limb.size ^ (i / 64) * 2 ^ (i % 64) = 2 ^ i := by
    rw [show Limb.size = 2 ^ 64 from rfl, ← Nat.pow_mul, ← Nat.pow_add, Nat.div_add_mod]
  rw [hpow] at hlimb
  rw [setBit]
  omega

theorem toNat_shiftRightOne (a : UInt256) : a.shiftRightOne.toNat = a.toNat / 2 := by
  have h3 : (a.limb3 >>> 1).toNat = a.limb3.toNat / 2 := by
    simp [Nat.shiftRight_eq_div_pow]
  simp only [shiftRightOne, toNat, Limb.toNat_shiftRight_or, h3, Limb.size]
  omega

end UInt256

namespace UInt512

theorem toNat_lt (a : UInt512) : a.toNat < 2 ^ 512 := by
  have hlow := a.low.toNat_lt
  have hhigh := a.high.toNat_lt
  simp only [toNat, UInt256.size] at hlow hhigh ⊢
  omega

theorem bit_eq_testBit (a : UInt512) (i : Nat) : a.bit i = a.toNat.testBit i := by
  have hvalue : a.toNat = 2 ^ 256 * a.high.toNat + a.low.toNat := by
    simp only [toNat, UInt256.size]
    omega
  rw [hvalue, Nat.testBit_two_pow_mul_add _ a.low.toNat_lt, bit, UInt256.bit_eq_testBit,
    UInt256.bit_eq_testBit]

theorem bitLength_eq_size (a : UInt512) : a.bitLength = a.toNat.size := by
  have hbit : a.bit = a.toNat.testBit := funext a.bit_eq_testBit
  rw [bitLength, hbit, bitLengthBelow_testBit, Nat.mod_eq_of_lt a.toNat_lt]

theorem isZero_iff (a : UInt512) : a.isZero = true ↔ a.toNat = 0 := by
  simp only [isZero, Bool.and_eq_true, UInt256.isZero_iff, toNat, UInt256.size]
  omega

end UInt512

end PallasVesta
