import Mathlib.Tactic.Linarith
import PallasVesta.Proofs.LongDivision

namespace PallasVesta

namespace UInt256

theorem limb_setLimb (a : UInt256) {i : Nat} (hi : i < 4) (l : Limb) (j : Nat) :
    (a.setLimb i l).limb j = if i = j then l else a.limb j := by
  match i, j with
  | 0, 0 | 0, 1 | 0, 2 | 0, 3 | 0, j + 4 => rfl
  | 1, 0 | 1, 1 | 1, 2 | 1, 3 | 1, j + 4 => simp [setLimb, limb]
  | 2, 0 | 2, 1 | 2, 2 | 2, 3 | 2, j + 4 => simp [setLimb, limb]
  | 3, 0 | 3, 1 | 3, 2 | 3, 3 | 3, j + 4 => simp [setLimb, limb]

def lowLimbs (a : UInt256) : Nat → Nat
  | 0 => 0
  | n + 1 => a.lowLimbs n + Limb.size ^ n * (a.limb n).toNat

theorem lowLimbs_four (a : UInt256) : a.lowLimbs 4 = a.toNat := by
  simp only [lowLimbs, limb, toNat, Limb.size]
  omega

theorem lowLimbs_lt (a : UInt256) (n : Nat) : a.lowLimbs n < Limb.size ^ n := by
  induction n with
  | zero => exact Nat.one_pos
  | succ n ih =>
      have hle : Limb.size ^ n * ((a.limb n).toNat + 1) ≤ Limb.size ^ n * Limb.size :=
        Nat.mul_le_mul_left _ (a.limb n).toNat_lt
      rw [Nat.mul_add, Nat.mul_one] at hle
      rw [lowLimbs, Nat.pow_succ]
      omega

end UInt256

namespace UInt512

theorem limb_setLimb_of_ne (a : UInt512) {i j : Nat} (hi : i < 8) (h : i ≠ j) (l : Limb) :
    (a.setLimb i l).limb j = a.limb j := by
  by_cases hlow : i < 4
  · rw [setLimb, if_pos hlow, limb, limb]
    split
    · rw [UInt256.limb_setLimb _ hlow, if_neg h]
    · rfl
  · rw [setLimb, if_neg hlow, limb, limb]
    split
    · rfl
    · rw [UInt256.limb_setLimb _ (by omega), if_neg (by omega)]

theorem toNat_setLimb (a : UInt512) {i : Nat} (hi : i < 8) (l : Limb) :
    (a.setLimb i l).toNat + Limb.size ^ i * (a.limb i).toNat =
      a.toNat + Limb.size ^ i * l.toNat := by
  by_cases hlow : i < 4
  · have h := UInt256.toNat_setLimb a.low hlow l
    rw [setLimb, if_pos hlow, limb, if_pos hlow]
    simp only [toNat]
    omega
  · have h := congrArg (UInt256.size * ·) (UInt256.toNat_setLimb a.high (by omega : i - 4 < 4) l)
    have hpow : Limb.size ^ i = UInt256.size * Limb.size ^ (i - 4) := by
      rw [show UInt256.size = Limb.size ^ 4 from rfl, ← Nat.pow_add, Nat.add_sub_cancel' (by omega)]
    rw [setLimb, if_neg hlow, limb, if_neg hlow, hpow, Nat.mul_assoc, Nat.mul_assoc]
    simp only [toNat, Nat.mul_add] at h ⊢
    omega

theorem limb_le (a : UInt512) {i : Nat} (hi : i < 8) :
    Limb.size ^ i * (a.limb i).toNat ≤ a.toNat := by
  have h := toNat_setLimb a hi 0
  rw [UInt64.toNat_zero, Nat.mul_zero] at h
  omega

theorem limb_eq_zero (a : UInt512) {i : Nat} (hi : i < 8) (h : a.toNat < Limb.size ^ i) :
    a.limb i = 0 := by
  by_contra hne
  have hpos : 1 ≤ (a.limb i).toNat := by
    rw [Nat.one_le_iff_ne_zero]
    exact fun hzero => hne (UInt64.toNat_inj.1 hzero)
  have hle := a.limb_le hi
  have hone := Nat.mul_le_mul_left (Limb.size ^ i) hpos
  omega

end UInt512

namespace UInt256

theorem toNat_wideningAdd (a b : UInt256) : (a.wideningAdd b).toNat = a.toNat + b.toNat := by
  have hcarry (c : Bool) : (ofLimb c.toUInt64).toNat = c.toNat := by
    cases c <;> rfl
  rw [← addCarry_exact, wideningAdd, UInt512.toNat, hcarry]

/-- The invariant of a row: nothing is lost but the carry out of the last limb, and the limbs
above are as they were. -/
theorem mulSteps_exact (factor : Limb) (b : UInt256) {offset : Nat} (acc : UInt512) {n : Nat}
    (h : offset + n ≤ 8) :
    (mulSteps factor b offset acc n).1.toNat +
        Limb.size ^ (offset + n) * (mulSteps factor b offset acc n).2.toNat =
      acc.toNat + Limb.size ^ offset * (factor.toNat * b.lowLimbs n) ∧
    ∀ j, offset + n ≤ j → (mulSteps factor b offset acc n).1.limb j = acc.limb j := by
  induction n with
  | zero => exact ⟨rfl, fun _ _ => rfl⟩
  | succ n ih =>
      obtain ⟨hvalue, habove⟩ := ih (by omega)
      rw [mulSteps]
      generalize mulSteps factor b offset acc n = state at hvalue habove ⊢
      obtain ⟨partialRow, carry⟩ := state
      have hmul := Limb.mulAdd_exact (partialRow.limb (offset + n)) factor (b.limb n) carry
      simp only at hvalue habove ⊢
      generalize Limb.mulAdd (partialRow.limb (offset + n)) factor (b.limb n) carry = digit
        at hmul ⊢
      obtain ⟨low, high⟩ := digit
      constructor
      · have hset := UInt512.toNat_setLimb partialRow (by omega : offset + n < 8) low
        have hscaled := congrArg (Limb.size ^ (offset + n) * ·) hmul
        simp only [lowLimbs, pow_add, pow_one, mul_add] at hset hvalue hscaled ⊢
        linarith
      · intro j hj
        rw [UInt512.limb_setLimb_of_ne _ (by omega) (by omega), habove j (by omega)]

theorem toNat_mulRow (factor : Limb) (b : UInt256) {offset : Nat} (acc : UInt512) (h : offset < 4)
    (hzero : acc.limb (offset + 4) = 0) :
    (mulRow factor b offset acc).toNat =
      acc.toNat + Limb.size ^ offset * (factor.toNat * b.toNat) := by
  obtain ⟨hvalue, habove⟩ := mulSteps_exact factor b acc (by omega : offset + 4 ≤ 8)
  have hset := UInt512.toNat_setLimb (mulSteps factor b offset acc 4).1 (by omega : offset + 4 < 8)
    (mulSteps factor b offset acc 4).2
  rw [habove _ (le_refl _), hzero, UInt64.toNat_zero, Nat.mul_zero, Nat.add_zero, hvalue,
    lowLimbs_four] at hset
  exact hset

theorem limb_eq_zero_of_rows {a b : UInt256} {rows : UInt512} {n : Nat} (hn : n < 4)
    (h : rows.toNat = a.lowLimbs n * b.toNat) : rows.limb (n + 4) = 0 := by
  apply UInt512.limb_eq_zero _ (by omega)
  rw [h, Nat.pow_add]
  exact Nat.mul_lt_mul_of_lt_of_le (a.lowLimbs_lt n) (Nat.le_of_lt b.toNat_lt)
    (Nat.pow_pos (by decide))

theorem mulRows_exact (a b : UInt256) {n : Nat} (h : n ≤ 4) :
    (mulRows a b n).toNat = a.lowLimbs n * b.toNat := by
  induction n with
  | zero => rw [lowLimbs, Nat.zero_mul]; rfl
  | succ n ih =>
      have hrows := ih (by omega)
      rw [mulRows, toNat_mulRow _ _ _ (by omega) (limb_eq_zero_of_rows (by omega) hrows), hrows,
        lowLimbs]
      ring

theorem toNat_wideningMul (a b : UInt256) : (a.wideningMul b).toNat = a.toNat * b.toNat := by
  rw [wideningMul, mulRows_exact a b (le_refl 4), lowLimbs_four]

/-- The product so far and the carry, before column `column` of row `row`. -/
def mulState (a b : UInt256) (row column : Nat) : UInt512 × Limb :=
  mulSteps (a.limb row) b row (mulRows a b row) column

/-- The integer that the step at `column` of `row` splits into a limb and a carry. -/
def mulWide (a b : UInt256) (row column : Nat) : Nat :=
  Limb.mulAddWide ((mulState a b row column).1.limb (row + column)) (a.limb row) (b.limb column)
    (mulState a b row column).2

theorem limb_mulState (a b : UInt256) {row : Nat} (hrow : row < 4) :
    (mulState a b row 4).1.limb (row + 4) = 0 := by
  obtain ⟨-, habove⟩ := mulSteps_exact (a.limb row) b (mulRows a b row) (by omega : row + 4 ≤ 8)
  rw [mulState, habove _ (le_refl _),
    limb_eq_zero_of_rows hrow (mulRows_exact a b (Nat.le_of_lt hrow))]

/-- Products are exact. No step on the way needs more than two limbs, and the limb into which a row
stores its last carry was zero until then. -/
theorem wideningMul_is_exact (a b : UInt256) :
    (a.wideningMul b).toNat = a.toNat * b.toNat ∧
    ∀ row < 4, (∀ column < 4, mulWide a b row column < 2 ^ 128) ∧
      (mulState a b row 4).1.limb (row + 4) = 0 := by
  refine ⟨toNat_wideningMul a b, fun row hrow => ⟨fun column _ => ?_, limb_mulState a b hrow⟩⟩
  exact Limb.mulAddWide_lt _ _ _ _

theorem wideningMul_of_largest :
    ((⟨-1, -1, -1, -1⟩ : UInt256).wideningMul ⟨-1, -1, -1, -1⟩).toNat = (2 ^ 256 - 1) ^ 2 ∧
      1 < 4 ∧ mulWide ⟨-1, -1, -1, -1⟩ ⟨-1, -1, -1, -1⟩ 1 1 = 2 ^ 128 - 1 ∧
      mulWide ⟨-1, -1, -1, -1⟩ ⟨-1, -1, -1, -1⟩ 1 1 < 2 ^ 128 ∧
      (mulState ⟨-1, -1, -1, -1⟩ ⟨-1, -1, -1, -1⟩ 1 4).1.limb 5 = 0 :=
  have h := wideningMul_is_exact ⟨-1, -1, -1, -1⟩ ⟨-1, -1, -1, -1⟩
  ⟨h.1.trans (by decide), by decide, by decide, (h.2 1 (by decide)).1 1 (by decide),
    (h.2 1 (by decide)).2⟩

end UInt256

end PallasVesta
