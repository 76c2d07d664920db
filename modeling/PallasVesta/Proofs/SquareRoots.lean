import Mathlib.NumberTheory.LegendreSymbol.Basic
import PallasVesta.Field.Power
import PallasVesta.Proofs.Powers
import PallasVesta.Proofs.Primality

namespace PallasVesta

/-- What the search relies on: the modulus is an odd prime, and the parameters split the order of
its multiplicative group into an odd factor and a power of two, with an element of that order. -/
structure FieldParams.IsTwoAdicPrime (M : FieldParams) : Prop where
  prime : M.modulus.toNat.Prime
  modulus_sub_one : M.modulus.toNat - 1 = M.oddFactor.toNat * 2 ^ FieldParams.twoAdicity
  odd : Odd M.oddFactor.toNat
  order_root :
    orderOf (M.twoAdicRoot.toNat : ZMod M.modulus.toNat) = 2 ^ FieldParams.twoAdicity

/-- The part of it that holds of the parameters whether or not the modulus is prime. -/
structure FieldParams.IsTwoAdic (M : FieldParams) : Prop where
  modulus_sub_one : M.modulus.toNat - 1 = M.oddFactor.toNat * 2 ^ FieldParams.twoAdicity
  odd : Odd M.oddFactor.toNat

theorem eq_neg_one_of_sq_eq_one {F : Type} [Field F] {x : F} (h : x ^ 2 = 1) (hne : x ≠ 1) :
    x = -1 :=
  (sq_eq_one_iff.1 h).resolve_left hne

theorem pow_half_order {F : Type} [Field F] {g : F} {n : Nat} (h : orderOf g = 2 ^ (n + 1)) :
    g ^ 2 ^ n = -1 := by
  apply eq_neg_one_of_sq_eq_one
  · rw [← pow_mul, ← pow_succ, ← h, pow_orderOf_eq_one]
  · apply pow_ne_one_of_lt_orderOf (Nat.two_pow_pos n).ne'
    rw [h]
    exact Nat.pow_lt_pow_succ Nat.one_lt_two

namespace FieldElement

variable {M : FieldParams}

section SquaringsToOne

variable [NeZero M.modulus.toNat]

theorem pow_squaringsToOne {a : FieldElement M} {limit : Nat} (h : a.squaringsToOne limit < limit) :
    a.toZMod ^ 2 ^ a.squaringsToOne limit = 1 := by
  induction limit generalizing a with
  | zero => exact absurd h (Nat.not_lt_zero _)
  | succ limit ih =>
      rw [squaringsToOne] at h ⊢
      by_cases hone : a = 1
      · rw [if_pos hone, hone, toZMod_one, one_pow]
      · rw [if_neg hone] at h ⊢
        rw [pow_succ', pow_mul, ← toZMod_square]
        exact ih (Nat.lt_of_succ_lt_succ h)

theorem pow_ne_one_of_lt_squaringsToOne (hM : 1 < M.modulus.toNat) {a : FieldElement M}
    (ha : a.IsCanonical) {limit i : Nat} (h : i < a.squaringsToOne limit) :
    a.toZMod ^ 2 ^ i ≠ 1 := by
  induction limit generalizing a i with
  | zero => exact absurd h (Nat.not_lt_zero _)
  | succ limit ih =>
      rw [squaringsToOne] at h
      by_cases hone : a = 1
      · rw [if_pos hone] at h
        exact absurd h (Nat.not_lt_zero _)
      · rw [if_neg hone] at h
        cases i with
        | zero =>
            rw [pow_zero, pow_one, ← toZMod_one, ne_eq, ha.toZMod_inj (isCanonical_one hM)]
            exact hone
        | succ i =>
            rw [pow_succ', pow_mul, ← toZMod_square]
            exact ih a.isCanonical_square (Nat.lt_of_succ_lt_succ h)

end SquaringsToOne

namespace RootSearch

/-- An answer is zero, or the root of a state that has come out of rounds and has residue one. -/
theorem exists_of_run {motive : RootSearch M → Prop}
    (hadvance : ∀ search least, motive search → motive (search.advance least))
    {search : RootSearch M} (h : motive search) {r : FieldElement M} (hrun : search.run = some r) :
    r = 0 ∨ ∃ last, motive last ∧ last.residue = 1 ∧ r = last.root := by
  induction search using run.induct with
  | case1 search hzero =>
      rw [run, if_pos hzero] at hrun
      exact Or.inl (Option.some.inj hrun).symm
  | case2 search hzero hone =>
      rw [run, if_neg hzero, if_pos hone] at hrun
      exact Or.inr ⟨search, h, hone, (Option.some.inj hrun).symm⟩
  | case3 search hzero hone least hlt ih =>
      rw [run, if_neg hzero, if_neg hone, if_pos hlt] at hrun
      exact ih (hadvance search least h) hrun
  | case4 search hzero hone least hlt =>
      rw [run, if_neg hzero, if_neg hone, if_neg hlt] at hrun
      nomatch hrun

section Sound

variable [NeZero M.modulus.toNat]

theorem sq_root_advance {x : ZMod M.modulus.toNat} (search : RootSearch M) (least : Nat)
    (h : search.root.toZMod ^ 2 = x * search.residue.toZMod) :
    (search.advance least).root.toZMod ^ 2 = x * (search.advance least).residue.toZMod := by
  simp only [advance, toZMod_mul, toZMod_square, mul_pow, h, mul_assoc]

theorem sq_of_run {search : RootSearch M} {x : ZMod M.modulus.toNat}
    (h : search.root.toZMod ^ 2 = x * search.residue.toZMod) {r : FieldElement M}
    (hrun : search.run = some r) (hr : r ≠ 0) : r.toZMod ^ 2 = x := by
  rcases exists_of_run sq_root_advance h hrun with hzero | ⟨last, hlast, hone, rfl⟩
  · exact absurd hzero hr
  · rw [hlast, hone, toZMod_one, mul_one]

theorem isCanonical_of_run {search : RootSearch M} (h : search.root.IsCanonical)
    {r : FieldElement M} (hrun : search.run = some r) : r.IsCanonical := by
  have hadvance (search : RootSearch M) (least : Nat) (_ : search.root.IsCanonical) :
      (search.advance least).root.IsCanonical := isCanonical_mul _ _
  rcases exists_of_run hadvance h hrun with rfl | ⟨last, hlast, -, rfl⟩
  · exact isCanonical_zero
  · exact hlast

end Sound

section Complete

variable [Fact M.modulus.toNat.Prime]

/-- What holds between rounds while a root of `x` is searched that exists: the cofactor has order
`2 ^ bound`, and the order of the residue is a smaller power of two. -/
structure Invariant (x : ZMod M.modulus.toNat) (search : RootSearch M) : Prop where
  sq_root : search.root.toZMod ^ 2 = x * search.residue.toZMod
  isCanonical_residue : search.residue.IsCanonical
  bound_pos : 1 ≤ search.bound
  cofactor_pow : search.cofactor.toZMod ^ 2 ^ (search.bound - 1) = -1
  residue_pow : search.residue.toZMod ^ 2 ^ (search.bound - 1) = 1

variable {search : RootSearch M} {x : ZMod M.modulus.toNat}

theorem Invariant.residue_ne_zero (h : search.Invariant x) : search.residue ≠ 0 := by
  intro hzero
  have hpow := h.residue_pow
  rw [hzero, toZMod_zero, zero_pow (Nat.two_pow_pos _).ne'] at hpow
  exact zero_ne_one hpow

theorem Invariant.squaringsToOne_lt (h : search.Invariant x) :
    search.residue.squaringsToOne search.bound < search.bound := by
  by_contra hlt
  have hbound := h.bound_pos
  have hM : 1 < M.modulus.toNat := (Fact.out : M.modulus.toNat.Prime).one_lt
  have hlast : search.bound - 1 < search.residue.squaringsToOne search.bound := by omega
  exact pow_ne_one_of_lt_squaringsToOne hM h.isCanonical_residue hlast h.residue_pow

/-- A round lowers the order of the residue: before it, half the order takes both the residue and
the square of the step to minus one. -/
theorem Invariant.advance (h : search.Invariant x) (hone : search.residue ≠ 1) :
    (search.advance (search.residue.squaringsToOne search.bound)).Invariant x := by
  have hM : 1 < M.modulus.toNat := (Fact.out : M.modulus.toNat.Prime).one_lt
  have hlt := h.squaringsToOne_lt
  have hpow := pow_squaringsToOne hlt
  have hbelow (i : Nat) (hi : i < search.residue.squaringsToOne search.bound) :
      search.residue.toZMod ^ 2 ^ i ≠ 1 :=
    pow_ne_one_of_lt_squaringsToOne hM h.isCanonical_residue hi
  generalize search.residue.squaringsToOne search.bound = least at hlt hpow hbelow ⊢
  have hpos : 1 ≤ least := by
    by_contra hzero
    have hleast : least = 0 := by omega
    rw [hleast, pow_zero, pow_one, ← toZMod_one,
      h.isCanonical_residue.toZMod_inj (isCanonical_one hM)] at hpow
    exact hone hpow
  have hresidue : search.residue.toZMod ^ 2 ^ (least - 1) = -1 := by
    apply eq_neg_one_of_sq_eq_one
    · rw [← pow_mul, ← pow_succ, Nat.sub_add_cancel hpos, hpow]
    · exact hbelow _ (by omega)
  have hcofactor : (search.advance least).cofactor.toZMod ^ 2 ^ (least - 1) = -1 := by
    have hexponent : search.bound - least - 1 + 1 + (least - 1) = search.bound - 1 := by omega
    rw [RootSearch.advance, toZMod_square, toZMod_squareTimes, ← pow_mul, ← pow_mul, ← mul_assoc,
      ← pow_succ, ← pow_add, hexponent, h.cofactor_pow]
  refine ⟨sq_root_advance search least h.sq_root, isCanonical_mul _ _, hpos, hcofactor, ?_⟩
  calc (search.advance least).residue.toZMod ^ 2 ^ (least - 1)
      = search.residue.toZMod ^ 2 ^ (least - 1) *
          (search.advance least).cofactor.toZMod ^ 2 ^ (least - 1) := by
        rw [RootSearch.advance, toZMod_mul, mul_pow]
    _ = 1 := by rw [hresidue, hcofactor, neg_mul_neg, one_mul]

theorem Invariant.exists_run (h : search.Invariant x) :
    ∃ r, search.run = some r ∧ r.toZMod ^ 2 = x := by
  induction search using run.induct with
  | case1 search hzero => exact absurd (isZero_iff_eq_zero.1 hzero) h.residue_ne_zero
  | case2 search hzero hone =>
      refine ⟨search.root, by rw [run, if_neg hzero, if_pos hone], ?_⟩
      rw [h.sq_root, hone, toZMod_one, mul_one]
  | case3 search hzero hone least hlt ih =>
      rw [run, if_neg hzero, if_neg hone, if_pos hlt]
      exact ih (h.advance hone)
  | case4 search hzero hone least hlt => exact absurd h.squaringsToOne_lt hlt

end Complete

end RootSearch

end FieldElement

namespace FieldParams.IsTwoAdic

open FieldElement

variable {M : FieldParams} (hM : M.IsTwoAdic)

include hM

theorem oddFactor_pos : 0 < M.oddFactor.toNat := hM.odd.pos

theorem two_mul_oddFactor_lt : 2 * M.oddFactor.toNat < M.modulus.toNat - 1 := by
  have hpos := hM.oddFactor_pos
  rw [hM.modulus_sub_one, mul_comm]
  exact Nat.mul_lt_mul_of_pos_left (by decide) hpos

theorem one_lt_modulus : 1 < M.modulus.toNat := by
  have hlt := hM.two_mul_oddFactor_lt
  omega

theorem toNat_succ_half :
    (M.oddFactor.shiftRightOne.addCarry .one).1.toNat = (M.oddFactor.toNat + 1) / 2 := by
  have hexact := UInt256.addCarry_exact M.oddFactor.shiftRightOne .one
  have hlt := M.oddFactor.toNat_lt
  obtain ⟨k, hk⟩ := hM.odd
  rw [UInt256.toNat_shiftRightOne, UInt256.toNat_one] at hexact
  cases hcarry : (M.oddFactor.shiftRightOne.addCarry .one).2 with
  | false =>
      rw [hcarry, Bool.toNat_false, Nat.mul_zero, Nat.add_zero] at hexact
      omega
  | true =>
      rw [hcarry, Bool.toNat_true, Nat.mul_one] at hexact
      omega

variable [NeZero M.modulus.toNat] (a : FieldElement M)

theorem isCanonical_residue_start : (RootSearch.start a).residue.IsCanonical :=
  isCanonical_pow hM.one_lt_modulus a _

theorem toZMod_pow_of_lt {exponent : UInt256} (h : exponent.toNat < M.modulus.toNat - 1) :
    (a.pow exponent).toZMod = a.toZMod ^ exponent.toNat := by
  rw [toZMod_pow hM.one_lt_modulus, Nat.mod_eq_of_lt h]

theorem toZMod_residue_start :
    (RootSearch.start a).residue.toZMod = a.toZMod ^ M.oddFactor.toNat := by
  have hlt := hM.two_mul_oddFactor_lt
  exact hM.toZMod_pow_of_lt a (by omega)

/-- Neither exponent is changed by the reduction modulo one less than the modulus. -/
theorem sq_root_start :
    (RootSearch.start a).root.toZMod ^ 2 = a.toZMod * (RootSearch.start a).residue.toZMod := by
  have hlt := hM.two_mul_oddFactor_lt
  have hpos := hM.oddFactor_pos
  obtain ⟨k, hk⟩ := hM.odd
  rw [hM.toZMod_residue_start, RootSearch.start,
    hM.toZMod_pow_of_lt a (by rw [hM.toNat_succ_half]; omega), hM.toNat_succ_half, ← pow_mul,
    ← pow_succ']
  congr 1
  omega

end FieldParams.IsTwoAdic

namespace FieldParams.IsTwoAdicPrime

open FieldElement

variable {M : FieldParams} (hM : M.IsTwoAdicPrime)

include hM

theorem isTwoAdic : M.IsTwoAdic := ⟨hM.modulus_sub_one, hM.odd⟩

theorem modulus_half :
    M.modulus.toNat / 2 = M.oddFactor.toNat * 2 ^ (twoAdicity - 1) := by
  have hsub := hM.modulus_sub_one
  have hpos := hM.prime.pos
  rw [show twoAdicity = twoAdicity - 1 + 1 from rfl, pow_succ, ← mul_assoc] at hsub
  omega

variable [Fact M.modulus.toNat.Prime]

theorem isSquare_iff {a : FieldElement M} (ha : a.IsCanonical) :
    a.isSquare = true ↔ IsSquare a.toZMod := by
  have hhalf : M.groupOrder.shiftRightOne.toNat = M.modulus.toNat / 2 := by
    have hsub := hM.modulus_sub_one
    rw [show twoAdicity = twoAdicity - 1 + 1 from rfl, pow_succ, ← mul_assoc] at hsub
    rw [UInt256.toNat_shiftRightOne, M.toNat_groupOrder hM.prime.pos]
    omega
  have hlt : M.groupOrder.shiftRightOne.toNat < M.modulus.toNat - 1 := by
    have hpos := hM.isTwoAdic.oddFactor_pos
    have hodd := hM.isTwoAdic.two_mul_oddFactor_lt
    omega
  rw [isSquare, Bool.or_eq_true, isZero_iff_eq_zero, beq_iff_eq]
  by_cases hzero : a = 0
  · rw [hzero, toZMod_zero]
    exact ⟨fun _ => IsSquare.zero, fun _ => Or.inl rfl⟩
  · have hne : a.toZMod ≠ 0 := by rwa [ne_eq, ha.toZMod_eq_zero_iff]
    rw [ZMod.euler_criterion _ hne, or_iff_right hzero, ← hhalf,
      ← hM.isTwoAdic.toZMod_pow_of_lt a hlt, ← toZMod_one,
      (isCanonical_pow hM.prime.one_lt _ _).toZMod_inj (isCanonical_one hM.prime.one_lt)]

theorem invariant_start {a : FieldElement M} (hne : a.toZMod ≠ 0) (hsquare : IsSquare a.toZMod) :
    (RootSearch.start a).Invariant a.toZMod := by
  have hone := hM.prime.one_lt
  have hodd := hM.isTwoAdic.two_mul_oddFactor_lt
  have hpos := hM.isTwoAdic.oddFactor_pos
  refine ⟨hM.isTwoAdic.sq_root_start a, hM.isTwoAdic.isCanonical_residue_start a,
    Nat.le_add_left 1 31, ?_, ?_⟩
  · have hroot : (FieldElement.twoAdicRoot : FieldElement M).toZMod ^ 2 ^ (twoAdicity - 1) = -1 :=
      pow_half_order hM.order_root
    rw [RootSearch.start, hM.isTwoAdic.toZMod_pow_of_lt _ (by omega), ← pow_mul, mul_comm, pow_mul,
      hroot, hM.odd.neg_one_pow]
  · rw [hM.isTwoAdic.toZMod_residue_start, ← pow_mul]
    change a.toZMod ^ (M.oddFactor.toNat * 2 ^ (twoAdicity - 1)) = 1
    rw [← hM.modulus_half]
    exact (ZMod.euler_criterion _ hne).1 hsquare

theorem exists_sqrt {a : FieldElement M} (ha : a.IsCanonical) (hsquare : IsSquare a.toZMod) :
    ∃ r, a.sqrt = some r ∧ r.IsCanonical ∧ r.toZMod ^ 2 = a.toZMod := by
  have hroot : (RootSearch.start a).root.IsCanonical := isCanonical_pow hM.prime.one_lt a _
  by_cases hzero : a = 0
  · have hresidue : (RootSearch.start a).residue = 0 := by
      rw [← (hM.isTwoAdic.isCanonical_residue_start a).toZMod_eq_zero_iff,
        hM.isTwoAdic.toZMod_residue_start, hzero, toZMod_zero,
        zero_pow hM.isTwoAdic.oddFactor_pos.ne']
    have hrun : a.sqrt = some 0 := by
      rw [sqrt, RootSearch.run, if_pos (isZero_iff_eq_zero.2 hresidue)]
    refine ⟨0, hrun, isCanonical_zero, ?_⟩
    rw [hzero, toZMod_zero, sq, zero_mul]
  · have hne : a.toZMod ≠ 0 := by rwa [ne_eq, ha.toZMod_eq_zero_iff]
    obtain ⟨r, hrun, hr⟩ := (hM.invariant_start hne hsquare).exists_run
    exact ⟨r, hrun, RootSearch.isCanonical_of_run hroot hrun, hr⟩

/-- The first round already finds that the order of the residue is too large. -/
theorem sqrt_eq_none {a : FieldElement M} (hsquare : ¬IsSquare a.toZMod) : a.sqrt = none := by
  have hne : a.toZMod ≠ 0 := by
    intro hzero
    exact hsquare (hzero ▸ IsSquare.zero)
  have hresidue := hM.isTwoAdic.toZMod_residue_start a
  have hhalf : (RootSearch.start a).residue.toZMod ^ 2 ^ (twoAdicity - 1) ≠ 1 := by
    rw [hresidue, ← pow_mul, ← hM.modulus_half, ne_eq, ← ZMod.euler_criterion _ hne]
    exact hsquare
  have hzero : (RootSearch.start a).residue ≠ 0 := by
    intro h
    rw [h, toZMod_zero] at hresidue
    exact pow_ne_zero _ hne hresidue.symm
  have hone : (RootSearch.start a).residue ≠ 1 := by
    intro h
    rw [h, toZMod_one, one_pow] at hhalf
    exact hhalf rfl
  have hleast : ¬(RootSearch.start a).residue.squaringsToOne (RootSearch.start a).bound <
      (RootSearch.start a).bound := by
    intro hlt
    have hpow := pow_squaringsToOne hlt
    have hle : (RootSearch.start a).residue.squaringsToOne (RootSearch.start a).bound ≤
        twoAdicity - 1 := Nat.le_sub_one_of_lt hlt
    rw [← Nat.sub_add_cancel hle, Nat.add_comm, pow_add, pow_mul, hpow, one_pow] at hhalf
    exact hhalf rfl
  rw [sqrt, RootSearch.run, if_neg (by rwa [isZero_iff_eq_zero]), if_neg hone, if_neg hleast]

end FieldParams.IsTwoAdicPrime

theorem orderOf_eq_of_powMod {modulus root n : Nat} (hmodulus : 1 < modulus)
    (hhalf : powMod modulus (n + 2) root (2 ^ n) ≠ 1)
    (hfull : powMod modulus (n + 2) root (2 ^ (n + 1)) = 1) :
    orderOf (root : ZMod modulus) = 2 ^ (n + 1) := by
  have hpos : 0 < modulus := by omega
  have hpow (i : Nat) (hi : i < n + 2) :
      (root : ZMod modulus) ^ 2 ^ i = 1 ↔ powMod modulus (n + 2) root (2 ^ i) = 1 := by
    rw [← natCast_pow_eq_iff hpos root (Nat.pow_lt_pow_right Nat.one_lt_two hi) hmodulus,
      Nat.cast_one]
  apply orderOf_eq_prime_pow
  · rwa [hpow n (by omega)]
  · rwa [hpow (n + 1) (by omega)]

namespace FieldParams

theorem isTwoAdicPrime_fp : fp.IsTwoAdicPrime where
  prime := prime_fp
  modulus_sub_one := by decide
  odd := Nat.odd_iff.2 (by decide)
  order_root := orderOf_eq_of_powMod prime_fp.one_lt (by decide +kernel) (by decide +kernel)

theorem isTwoAdicPrime_fq : fq.IsTwoAdicPrime where
  prime := prime_fq
  modulus_sub_one := by decide
  odd := Nat.odd_iff.2 (by decide)
  order_root := orderOf_eq_of_powMod prime_fq.one_lt (by decide +kernel) (by decide +kernel)

end FieldParams

namespace FieldElement

/-- Over both fields of the cycle, and over every field like them: a root is found exactly for a
square, it is one, the test for squares agrees, and the root of a square is right up to sign. -/
theorem sqrt_sound_and_complete :
    FieldParams.fp.IsTwoAdicPrime ∧ FieldParams.fq.IsTwoAdicPrime ∧
    ∀ M : FieldParams, M.IsTwoAdicPrime →
      (∀ a : FieldElement M, a.IsCanonical →
        (∀ r, a.sqrt = some r → r.IsCanonical ∧ r * r = a) ∧
        (a.sqrt.isSome = true ↔ ∃ x : FieldElement M, x.IsCanonical ∧ x * x = a) ∧
        a.isSquare = a.sqrt.isSome) ∧
      (0 : FieldElement M).sqrt = some 0 ∧
      ∀ x : FieldElement M, x.IsCanonical →
        (x * x).sqrt = some x ∨ (x * x).sqrt = some (-x) := by
  refine ⟨FieldParams.isTwoAdicPrime_fp, FieldParams.isTwoAdicPrime_fq, ?_⟩
  intro M hM
  have : Fact M.modulus.toNat.Prime := ⟨hM.prime⟩
  have hsome (a : FieldElement M) (ha : a.IsCanonical) :
      a.sqrt.isSome = true ↔ IsSquare a.toZMod := by
    by_cases hsquare : IsSquare a.toZMod
    · obtain ⟨r, hr, -⟩ := hM.exists_sqrt ha hsquare
      simp [hr, hsquare]
    · simp [hM.sqrt_eq_none hsquare, hsquare]
  have hroot (a : FieldElement M) (ha : a.IsCanonical) (r : FieldElement M)
      (hr : a.sqrt = some r) : r.IsCanonical ∧ r.toZMod ^ 2 = a.toZMod := by
    have hsquare : IsSquare a.toZMod := (hsome a ha).1 (by rw [hr]; rfl)
    obtain ⟨s, hs, hcanonical, hsq⟩ := hM.exists_sqrt ha hsquare
    rw [hr] at hs
    rw [Option.some.inj hs]
    exact ⟨hcanonical, hsq⟩
  have hsquares (x : FieldElement M) (hx : x.IsCanonical) :
      (x * x).sqrt = some x ∨ (x * x).sqrt = some (-x) := by
    obtain ⟨r, hr, hcanonical, hsq⟩ := hM.exists_sqrt (isCanonical_mul x x)
      ⟨x.toZMod, toZMod_mul x x⟩
    rw [toZMod_mul, sq, mul_self_eq_mul_self_iff, ← toZMod_neg, hcanonical.toZMod_inj hx,
      hcanonical.toZMod_inj (isCanonical_neg x)] at hsq
    rcases hsq with rfl | rfl
    · exact Or.inl hr
    · exact Or.inr hr
  refine ⟨fun a ha => ⟨?_, ?_, ?_⟩, ?_, hsquares⟩
  · intro r hr
    obtain ⟨hcanonical, hsq⟩ := hroot a ha r hr
    refine ⟨hcanonical, ?_⟩
    rwa [← (isCanonical_mul r r).toZMod_inj ha, toZMod_mul, ← sq]
  · rw [hsome a ha]
    constructor
    · rintro ⟨x, hx⟩
      refine ⟨ofZMod x, isCanonical_ofZMod x, ?_⟩
      rw [← (isCanonical_mul _ _).toZMod_inj ha, toZMod_mul, toZMod_ofZMod, hx]
    · rintro ⟨x, -, rfl⟩
      exact ⟨x.toZMod, toZMod_mul x x⟩
  · rw [Bool.eq_iff_iff, hM.isSquare_iff ha, hsome a ha]
  · have hzero := hsquares 0 isCanonical_zero
    have hmul : (0 : FieldElement M) * 0 = 0 := by
      rw [← (isCanonical_mul 0 0).toZMod_inj isCanonical_zero, toZMod_mul, toZMod_zero, zero_mul]
    have hneg : (-0 : FieldElement M) = 0 := by
      rw [← (isCanonical_neg 0).toZMod_inj isCanonical_zero, toZMod_neg, toZMod_zero, neg_zero]
    rw [hmul, hneg, or_self] at hzero
    exact hzero

theorem sqrt_four_of_correct :
    FieldParams.fp.IsTwoAdicPrime ∧ (⟨.ofLimb 2⟩ : Fp).IsCanonical ∧
      (((⟨.ofLimb 2⟩ : Fp) * ⟨.ofLimb 2⟩).sqrt = some ⟨.ofLimb 2⟩ ∨
        ((⟨.ofLimb 2⟩ : Fp) * ⟨.ofLimb 2⟩).sqrt = some (-⟨.ofLimb 2⟩)) :=
  have hcanonical : (⟨.ofLimb 2⟩ : Fp).IsCanonical := by
    rw [IsCanonical]
    decide
  ⟨sqrt_sound_and_complete.1, hcanonical,
    (sqrt_sound_and_complete.2.2 .fp sqrt_sound_and_complete.1).2.2 _ hcanonical⟩

end FieldElement

end PallasVesta
