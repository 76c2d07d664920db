namespace PallasVesta

abbrev Limb := UInt64

namespace Limb

/-- The number of limbs there are, `2 ^ 64`. -/
abbrev size : Nat := 0x10000000000000000

@[inline] def addCarry (a b : Limb) (carry : Bool) : Limb × Bool :=
  let sum := a + b
  let total := sum + carry.toUInt64
  (total, sum < a || total < sum)

@[inline] def subBorrow (a b : Limb) (borrow : Bool) : Limb × Bool :=
  let difference := a - b
  let total := difference - borrow.toUInt64
  (total, a < b || difference < borrow.toUInt64)

/-- The integer that `mulAdd` splits into two limbs. -/
def mulAddWide (acc a b carry : Limb) : Nat :=
  acc.toNat + a.toNat * b.toNat + carry.toNat

def mulAdd (acc a b carry : Limb) : Limb × Limb :=
  let wide := mulAddWide acc a b carry
  (.ofNat wide, .ofNat (wide >>> 64))

def join (high low : Limb) : Nat := high.toNat <<< 64 + low.toNat

/-- Divides the integer with `high` above `low`, each result cut to its low limb. -/
def divMod (high low divisor : Limb) : Limb × Limb :=
  let wide := join high low
  (.ofNat (wide / divisor.toNat), .ofNat (wide % divisor.toNat))

theorem toNat_pos {a : Limb} (h : a ≠ 0) : 0 < a.toNat :=
  UInt64.lt_iff_toNat_lt.1 (UInt64.pos_iff_ne_zero.2 h)

theorem addCarry_exact (a b : Limb) (carry : Bool) :
    (addCarry a b carry).1.toNat + size * (addCarry a b carry).2.toNat =
      a.toNat + b.toNat + carry.toNat := by
  have ha := a.toNat_lt
  have hb := b.toNat_lt
  have hout : (addCarry a b carry).2 = decide (2 ^ 64 ≤ a.toNat + b.toNat + carry.toNat) := by
    cases carry <;>
      simp only [addCarry, UInt64.lt_iff_toNat_lt, UInt64.toNat_add, Bool.toUInt64,
        Bool.toNat_true, Bool.toNat_false] <;>
      grind
  have hsum : (addCarry a b carry).1.toNat = (a.toNat + b.toNat + carry.toNat) % 2 ^ 64 := by
    cases carry <;> simp [addCarry, Bool.toUInt64]
  rw [hout, hsum]
  have hcarry := carry.toNat_le
  by_cases h : 2 ^ 64 ≤ a.toNat + b.toNat + carry.toNat
  · rw [decide_eq_true h, Bool.toNat_true, size]
    omega
  · rw [decide_eq_false h, Bool.toNat_false, size]
    omega

theorem subBorrow_exact (a b : Limb) (borrow : Bool) :
    (subBorrow a b borrow).1.toNat + b.toNat + borrow.toNat =
      a.toNat + size * (subBorrow a b borrow).2.toNat := by
  have ha := a.toNat_lt
  have hb := b.toNat_lt
  have hout : (subBorrow a b borrow).2 = decide (a.toNat < b.toNat + borrow.toNat) := by
    cases borrow <;>
      simp only [subBorrow, UInt64.lt_iff_toNat_lt, UInt64.toNat_sub, Bool.toUInt64,
        Bool.toNat_true, Bool.toNat_false] <;>
      grind
  have hdifference : (subBorrow a b borrow).1.toNat =
      (2 ^ 65 + a.toNat - b.toNat - borrow.toNat) % 2 ^ 64 := by
    cases borrow <;> simp [subBorrow, Bool.toUInt64, UInt64.toNat_sub] <;> omega
  rw [hout, hdifference]
  have hborrow := borrow.toNat_le
  by_cases h : a.toNat < b.toNat + borrow.toNat
  · rw [decide_eq_true h, Bool.toNat_true, size]
    omega
  · rw [decide_eq_false h, Bool.toNat_false, size]
    omega

theorem mulAddWide_lt (acc a b carry : Limb) : mulAddWide acc a b carry < size * size := by
  have hacc := acc.toNat_lt
  have hcarry := carry.toNat_lt
  have hproduct : a.toNat * b.toNat ≤ (2 ^ 64 - 1) * (2 ^ 64 - 1) :=
    Nat.mul_le_mul (Nat.le_sub_one_of_lt a.toNat_lt) (Nat.le_sub_one_of_lt b.toNat_lt)
  simp only [mulAddWide, size]
  omega

theorem mulAdd_exact (acc a b carry : Limb) :
    (mulAdd acc a b carry).1.toNat + size * (mulAdd acc a b carry).2.toNat =
      acc.toNat + a.toNat * b.toNat + carry.toNat := by
  have hwide := mulAddWide_lt acc a b carry
  simp only [mulAdd, UInt64.toNat_ofNat', Nat.shiftRight_eq_div_pow, size] at hwide ⊢
  rw [← mulAddWide]
  omega

theorem join_eq (high low : Limb) : join high low = size * high.toNat + low.toNat := by
  rw [join, Nat.shiftLeft_eq, Nat.mul_comm]

/-- With a remainder below the divisor on top, the quotient fits in a limb. -/
theorem join_div_lt {high divisor : Limb} (low : Limb) (h : high.toNat < divisor.toNat) :
    join high low / divisor.toNat < size := by
  have hlow := low.toNat_lt
  rw [Nat.div_lt_iff_lt_mul (by omega), join_eq]
  calc size * high.toNat + low.toNat < size * (high.toNat + 1) := Nat.add_lt_add_left hlow _
    _ ≤ size * divisor.toNat := Nat.mul_le_mul_left _ h

theorem divMod_exact (high low divisor : Limb) (h : high.toNat < divisor.toNat) :
    (divMod high low divisor).1.toNat = join high low / divisor.toNat ∧
      (divMod high low divisor).2.toNat = join high low % divisor.toNat := by
  have hquotient := join_div_lt low h
  have hremainder : join high low % divisor.toNat < size :=
    Nat.lt_trans (Nat.mod_lt _ (by omega)) divisor.toNat_lt
  simp only [divMod, UInt64.toNat_ofNat', Nat.mod_eq_of_lt hquotient,
    Nat.mod_eq_of_lt hremainder, and_self]

end Limb

end PallasVesta
