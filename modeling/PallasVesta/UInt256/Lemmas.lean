import PallasVesta.UInt256.Basic

namespace PallasVesta

namespace Limb

theorem toNat_shiftLeft_or (a b : Limb) (h : b.toNat < 2) :
    (a <<< 1 ||| b).toNat + size * (a >>> 63).toNat = 2 * a.toNat + b.toNat := by
  have ha := a.toNat_lt
  have hshift : (a.toNat <<< 1) % 2 ^ 64 = (a.toNat % 2 ^ 63) <<< 1 := by
    simp only [Nat.shiftLeft_eq]
    omega
  have hor : (a <<< 1 ||| b).toNat = 2 * (a.toNat % 2 ^ 63) + b.toNat := by
    simp only [UInt64.toNat_or, UInt64.toNat_shiftLeft, UInt64.toNat_one, Nat.one_mod]
    rw [hshift, ← Nat.shiftLeft_add_eq_or_of_lt (by omega),
      Nat.shiftLeft_eq]
    omega
  have hhigh : (a >>> 63).toNat = a.toNat / 2 ^ 63 := by
    simp [Nat.shiftRight_eq_div_pow]
  rw [hor, hhigh, size]
  omega

theorem toNat_shiftRight_lt_two (a : Limb) : (a >>> 63).toNat < 2 := by
  have ha := a.toNat_lt
  simp [Nat.shiftRight_eq_div_pow]
  omega

end Limb

namespace UInt256

theorem toNat_lt (a : UInt256) : a.toNat < size := by
  have h0 := a.limb0.toNat_lt
  have h1 := a.limb1.toNat_lt
  have h2 := a.limb2.toNat_lt
  have h3 := a.limb3.toNat_lt
  simp only [toNat, Limb.size, size]
  omega

theorem toNat_ofLimb (limb : Limb) : (ofLimb limb).toNat = limb.toNat := by
  simp [toNat, ofLimb]

theorem toNat_zero : zero.toNat = 0 := rfl

theorem toNat_one : one.toNat = 1 := rfl

theorem toNat_inj {a b : UInt256} : a.toNat = b.toNat ↔ a = b := by
  constructor
  · intro h
    obtain ⟨a0, a1, a2, a3⟩ := a
    obtain ⟨b0, b1, b2, b3⟩ := b
    have ha0 := a0.toNat_lt
    have ha1 := a1.toNat_lt
    have ha2 := a2.toNat_lt
    have hb0 := b0.toNat_lt
    have hb1 := b1.toNat_lt
    have hb2 := b2.toNat_lt
    simp only [toNat, Limb.size] at h
    simp only [mk.injEq, ← UInt64.toNat_inj]
    omega
  · exact congrArg toNat

theorem compare_eq_lt_iff (a b : UInt256) : a.compare b = .lt ↔ a.toNat < b.toNat := by
  have ha0 := a.limb0.toNat_lt
  have ha1 := a.limb1.toNat_lt
  have ha2 := a.limb2.toNat_lt
  have hb0 := b.limb0.toNat_lt
  have hb1 := b.limb1.toNat_lt
  have hb2 := b.limb2.toNat_lt
  simp only [UInt256.compare, Ordering.then_eq_lt, Std.compare_eq_lt, Std.compare_eq_iff_eq,
    UInt64.lt_iff_toNat_lt, ← UInt64.toNat_inj, toNat, Limb.size]
  omega

theorem compare_eq_eq_iff (a b : UInt256) : a.compare b = .eq ↔ a = b := by
  obtain ⟨a0, a1, a2, a3⟩ := a
  obtain ⟨b0, b1, b2, b3⟩ := b
  simp only [UInt256.compare, Ordering.then_eq_eq, Std.compare_eq_iff_eq, mk.injEq]
  grind

theorem lt_iff_toNat_lt {a b : UInt256} : a < b ↔ a.toNat < b.toNat :=
  compare_eq_lt_iff a b

theorem le_iff_toNat_le {a b : UInt256} : a ≤ b ↔ a.toNat ≤ b.toNat := by
  have hlt := compare_eq_lt_iff a b
  have heq := compare_eq_eq_iff a b
  rw [← toNat_inj] at heq
  change a.compare b ≠ .gt ↔ _
  cases h : a.compare b <;> simp [h] at hlt heq ⊢ <;> omega

theorem isZero_iff (a : UInt256) : a.isZero = true ↔ a.toNat = 0 := by
  simp only [isZero, Bool.and_eq_true, beq_iff_eq, ← UInt64.toNat_inj, toNat, UInt64.toNat_zero,
    Limb.size]
  omega

theorem addCarry_exact (a b : UInt256) :
    (a.addCarry b).1.toNat + size * (a.addCarry b).2.toNat = a.toNat + b.toNat := by
  have h0 := Limb.addCarry_exact a.limb0 b.limb0 false
  have h1 := Limb.addCarry_exact a.limb1 b.limb1 (a.limb0.addCarry b.limb0 false).2
  have h2 := Limb.addCarry_exact a.limb2 b.limb2
    (a.limb1.addCarry b.limb1 (a.limb0.addCarry b.limb0 false).2).2
  have h3 := Limb.addCarry_exact a.limb3 b.limb3 (a.limb2.addCarry b.limb2
    (a.limb1.addCarry b.limb1 (a.limb0.addCarry b.limb0 false).2).2).2
  simp only [Bool.toNat_false, Nat.add_zero, Limb.size] at h0 h1 h2 h3
  simp only [addCarry, toNat, Limb.size, size]
  omega

theorem subBorrow_exact (a b : UInt256) :
    (a.subBorrow b).1.toNat + b.toNat = a.toNat + size * (a.subBorrow b).2.toNat := by
  have h0 := Limb.subBorrow_exact a.limb0 b.limb0 false
  have h1 := Limb.subBorrow_exact a.limb1 b.limb1 (a.limb0.subBorrow b.limb0 false).2
  have h2 := Limb.subBorrow_exact a.limb2 b.limb2
    (a.limb1.subBorrow b.limb1 (a.limb0.subBorrow b.limb0 false).2).2
  have h3 := Limb.subBorrow_exact a.limb3 b.limb3 (a.limb2.subBorrow b.limb2
    (a.limb1.subBorrow b.limb1 (a.limb0.subBorrow b.limb0 false).2).2).2
  simp only [Bool.toNat_false, Nat.add_zero, Limb.size] at h0 h1 h2 h3
  simp only [subBorrow, toNat, Limb.size, size]
  omega

theorem toNat_wrappingSub {a b : UInt256} (h : b.toNat ≤ a.toNat) :
    (a.wrappingSub b).toNat = a.toNat - b.toNat := by
  have hexact := subBorrow_exact a b
  have hlt := toNat_lt (a.subBorrow b).1
  simp only [wrappingSub]
  cases hborrow : (a.subBorrow b).2 <;> simp [hborrow, size] at hexact hlt <;> omega

theorem shiftLeftOne_exact (a : UInt256) (carry : Bool) :
    (a.shiftLeftOne carry).1.toNat + size * (a.shiftLeftOne carry).2.toNat =
      2 * a.toNat + carry.toNat := by
  have hcarry : carry.toUInt64.toNat = carry.toNat := by cases carry <;> rfl
  have h0 := Limb.toNat_shiftLeft_or a.limb0 carry.toUInt64 (by cases carry <;> decide)
  have h1 := Limb.toNat_shiftLeft_or a.limb1 (a.limb0 >>> 63) (Limb.toNat_shiftRight_lt_two _)
  have h2 := Limb.toNat_shiftLeft_or a.limb2 (a.limb1 >>> 63) (Limb.toNat_shiftRight_lt_two _)
  have h3 := Limb.toNat_shiftLeft_or a.limb3 (a.limb2 >>> 63) (Limb.toNat_shiftRight_lt_two _)
  have hout : (a.limb3 >>> 63 == 1).toNat = (a.limb3 >>> 63).toNat := by
    have htop := Limb.toNat_shiftRight_lt_two a.limb3
    by_cases h : a.limb3 >>> 63 = 1
    · simp [h]
    · have hne : (a.limb3 >>> 63).toNat ≠ 1 := fun heq => h (UInt64.toNat_inj.1 heq)
      simp only [beq_eq_false_iff_ne.2 h, Bool.toNat_false]
      omega
  rw [hcarry] at h0
  simp only [Limb.size] at h0 h1 h2 h3
  simp only [shiftLeftOne, toNat, hout, Limb.size, size]
  omega

end UInt256

end PallasVesta
