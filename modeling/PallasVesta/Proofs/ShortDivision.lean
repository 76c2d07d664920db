import Mathlib.Data.Nat.ModEq
import PallasVesta.UInt256.Division

namespace PallasVesta.UInt256

def highLimbs (a : UInt256) : Nat → Nat
  | 0 => 0
  | n + 1 => Limb.size * a.highLimbs n + (a.limb (3 - n)).toNat

/-- What division by a limb has left over after the highest `n` limbs. -/
def divLimbCarry (a : UInt256) (divisor : Limb) : Nat → Limb
  | 0 => 0
  | n + 1 => (Limb.divMod (a.divLimbCarry divisor n) (a.limb (3 - n)) divisor).2

/-- The integer that is divided for the limb below the highest `n`. -/
def divLimbWide (a : UInt256) (divisor : Limb) (n : Nat) : Nat :=
  Limb.join (a.divLimbCarry divisor n) (a.limb (3 - n))

def mulAddLimbCarry (a : UInt256) (factor addend : Limb) : Nat → Limb
  | 0 => addend
  | n + 1 => (Limb.mulAdd 0 (a.limb n) factor (a.mulAddLimbCarry factor addend n)).2

def mulAddLimbWide (a : UInt256) (factor addend : Limb) (n : Nat) : Nat :=
  Limb.mulAddWide 0 (a.limb n) factor (a.mulAddLimbCarry factor addend n)

theorem limb_divLimb (a : UInt256) (divisor : Limb) {n : Nat} (hn : n < 4) :
    (a.divLimb divisor).1.limb (3 - n) =
      (Limb.divMod (a.divLimbCarry divisor n) (a.limb (3 - n)) divisor).1 := by
  match n with
  | 0 | 1 | 2 | 3 => rfl

theorem toNat_limb_mulAddLimb (a : UInt256) (factor addend : Limb) {n : Nat} (hn : n < 4) :
    ((a.mulAddLimb factor addend).1.limb n).toNat =
      mulAddLimbWide a factor addend n % 2 ^ 64 := by
  match n with
  | 0 | 1 | 2 | 3 => rfl

section

variable (a : UInt256) {divisor : Limb} (hdivisor : divisor ≠ 0)
include hdivisor

theorem toNat_divLimbCarry (n : Nat) :
    (a.divLimbCarry divisor n).toNat = a.highLimbs n % divisor.toNat := by
  induction n with
  | zero => rw [divLimbCarry, highLimbs, UInt64.toNat_zero, Nat.zero_mod]
  | succ n ih =>
      -- only a carry below the divisor keeps both parts of the next division within a limb
      have hlt : (a.divLimbCarry divisor n).toNat < divisor.toNat := by
        rw [ih]
        exact Nat.mod_lt _ (Limb.toNat_pos hdivisor)
      rw [divLimbCarry, (Limb.divMod_exact _ _ _ hlt).2, Limb.join_eq, ih, highLimbs]
      apply Nat.ModEq.add_right
      exact (Nat.mod_modEq _ _).mul_left _

theorem divLimbCarry_lt (n : Nat) : (a.divLimbCarry divisor n).toNat < divisor.toNat := by
  rw [toNat_divLimbCarry a hdivisor]
  exact Nat.mod_lt _ (Limb.toNat_pos hdivisor)

theorem divLimbWide_div_lt (n : Nat) : divLimbWide a divisor n / divisor.toNat < 2 ^ 64 :=
  Limb.join_div_lt _ (divLimbCarry_lt a hdivisor n)

theorem toNat_limb_divLimb {n : Nat} (hn : n < 4) :
    ((a.divLimb divisor).1.limb (3 - n)).toNat = divLimbWide a divisor n / divisor.toNat := by
  rw [limb_divLimb a divisor hn]
  exact (Limb.divMod_exact _ _ _ (divLimbCarry_lt a hdivisor n)).1

end

theorem mulAddLimb_of_toNat {a b : UInt256} {factor addend : Limb}
    (h : a.toNat * factor.toNat + addend.toNat = b.toNat) :
    a.mulAddLimb factor addend = (b, 0) := by
  have hexact := mulAddLimb_exact a factor addend
  have hb := b.toNat_lt
  rw [h] at hexact
  have hcarry : (a.mulAddLimb factor addend).2.toNat = 0 := by
    simp only [size] at hexact hb
    omega
  rw [hcarry, Nat.mul_zero, Nat.add_zero] at hexact
  exact Prod.ext (toNat_inj.1 hexact) (UInt64.toNat_inj.1 hcarry)

theorem divLimb_of_toNat {a quotient : UInt256} {divisor remainder : Limb}
    (h : quotient.toNat * divisor.toNat + remainder.toNat = a.toNat)
    (hlt : remainder.toNat < divisor.toNat) : a.divLimb divisor = (quotient, remainder) := by
  have hdivisor : divisor ≠ 0 := by
    rintro rfl
    exact Nat.not_lt_zero _ hlt
  -- the given pair and the computed one are both the quotient and the remainder of the integers
  have unique {q r : Nat} (hvalue : q * divisor.toNat + r = a.toNat) (hr : r < divisor.toNat) :
      a.toNat / divisor.toNat = q ∧ a.toNat % divisor.toNat = r := by
    rw [Nat.div_mod_unique (Limb.toNat_pos hdivisor), Nat.add_comm, Nat.mul_comm]
    exact ⟨hvalue, hr⟩
  obtain ⟨hexact, hrest⟩ := divLimb_exact a hdivisor
  obtain ⟨hquotient, hremainder⟩ := unique h hlt
  obtain ⟨hquotient', hremainder'⟩ := unique hexact hrest
  apply Prod.ext
  · exact toNat_inj.1 (hquotient'.symm.trans hquotient)
  · exact UInt64.toNat_inj.1 (hremainder'.symm.trans hremainder)

/-- Division by a limb and multiplication with a limb are exact, in every step and as a whole, and
each undoes the other. -/
theorem limb_division_and_product_are_exact (a : UInt256) :
    (∀ divisor : Limb, divisor ≠ 0 →
      (a.toNat = (a.divLimb divisor).1.toNat * divisor.toNat + (a.divLimb divisor).2.toNat ∧
        (a.divLimb divisor).2.toNat < divisor.toNat) ∧
      (∀ n < 4, divLimbWide a divisor n / divisor.toNat < 2 ^ 64 ∧
        ((a.divLimb divisor).1.limb (3 - n)).toNat = divLimbWide a divisor n / divisor.toNat) ∧
      (a.divLimb divisor).1.mulAddLimb divisor (a.divLimb divisor).2 = (a, 0)) ∧
    ∀ factor addend : Limb,
      a.toNat * factor.toNat + addend.toNat =
        (a.mulAddLimb factor addend).1.toNat + (a.mulAddLimb factor addend).2.toNat * 2 ^ 256 ∧
      (∀ n < 4, mulAddLimbWide a factor addend n < 2 ^ 128 ∧
        ((a.mulAddLimb factor addend).1.limb n).toNat =
          mulAddLimbWide a factor addend n % 2 ^ 64) ∧
      (addend.toNat < factor.toNat → (a.mulAddLimb factor addend).2 = 0 →
        (a.mulAddLimb factor addend).1.divLimb factor = (a, addend)) := by
  constructor
  · intro divisor hdivisor
    obtain ⟨hexact, hlt⟩ := divLimb_exact a hdivisor
    refine ⟨⟨hexact.symm, hlt⟩, fun n hn => ⟨?_, ?_⟩, mulAddLimb_of_toNat hexact⟩
    · exact divLimbWide_div_lt a hdivisor n
    · exact toNat_limb_divLimb a hdivisor hn
  · intro factor addend
    have hexact := mulAddLimb_exact a factor addend
    refine ⟨?_, fun n hn => ⟨?_, toNat_limb_mulAddLimb a factor addend hn⟩, fun hlt hcarry => ?_⟩
    · rw [← hexact, Nat.mul_comm size]
      rfl
    · exact Limb.mulAddWide_lt _ _ _ _
    · rw [hcarry, UInt64.toNat_zero, Nat.mul_zero, Nat.add_zero] at hexact
      exact divLimb_of_toNat hexact.symm hlt

theorem limb_division_at_largest_quotient_limb :
    (10000000000000000000 : Limb) ≠ 0 ∧ 3 < 4 ∧
      divLimbWide ⟨-1, -1, -1, 9999999999999999999⟩ 10000000000000000000 3 / 10 ^ 19 =
        2 ^ 64 - 1 ∧
      divLimbWide ⟨-1, -1, -1, 9999999999999999999⟩ 10000000000000000000 3 / 10 ^ 19 < 2 ^ 64 ∧
      (9999999999999999999 : Limb).toNat < (10000000000000000000 : Limb).toNat ∧
      (mulAddLimb ⟨-1, -1, -1, 0⟩ 10000000000000000000 9999999999999999999).2 = 0 ∧
      (mulAddLimb ⟨-1, -1, -1, 0⟩ 10000000000000000000 9999999999999999999).1.divLimb
        10000000000000000000 = (⟨-1, -1, -1, 0⟩, 9999999999999999999) := by
  have hdivisor : (10000000000000000000 : Limb) ≠ 0 := by decide
  have hlt : (9999999999999999999 : Limb).toNat < (10000000000000000000 : Limb).toNat := by decide
  have hcarry : (mulAddLimb ⟨-1, -1, -1, 0⟩ 10000000000000000000 9999999999999999999).2 = 0 := by
    decide
  obtain ⟨-, hsteps, -⟩ :=
    (limb_division_and_product_are_exact ⟨-1, -1, -1, 9999999999999999999⟩).1 _ hdivisor
  obtain ⟨-, -, hundone⟩ := (limb_division_and_product_are_exact ⟨-1, -1, -1, 0⟩).2
    10000000000000000000 9999999999999999999
  exact ⟨hdivisor, by decide, by decide, (hsteps 3 (by decide)).1, hlt, hcarry,
    hundone hlt hcarry⟩

end PallasVesta.UInt256
