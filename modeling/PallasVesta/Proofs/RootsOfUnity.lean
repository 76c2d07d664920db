import PallasVesta.Proofs.Powers
import PallasVesta.Proofs.SquareRoots

namespace PallasVesta

theorem one_lt_of_orderOf_natCast {m a n : Nat} (hn : 1 < n) (h : orderOf (a : ZMod m) = n) :
    1 < m := by
  by_contra hm
  have hcases : m = 0 ∨ m = 1 := by omega
  rcases hcases with rfl | rfl
  · have hpow : (a : ZMod 0) ^ n = 1 := by rw [← h, pow_orderOf_eq_one]
    rw [← Nat.cast_pow, Nat.cast_eq_one, Nat.pow_eq_one] at hpow
    rcases hpow with rfl | rfl
    · rw [Nat.cast_one, orderOf_one] at h
      omega
    · omega
  · rw [Subsingleton.elim (a : ZMod 1) 1, orderOf_one] at h
    omega

namespace FieldElement

open FieldParams

variable {M : FieldParams}

theorem squareTimes_add (a : FieldElement M) (m n : Nat) :
    a.squareTimes (m + n) = (a.squareTimes m).squareTimes n := by
  induction m generalizing a with
  | zero => rw [Nat.zero_add, squareTimes]
  | succ m ih => rw [Nat.succ_add, squareTimes, squareTimes, ih]

theorem isCanonical_squareTimes_of_pos [NeZero M.modulus.toNat] (a : FieldElement M) {n : Nat}
    (h : 0 < n) : (a.squareTimes n).IsCanonical := by
  cases n with
  | zero => nomatch h
  | succ n => exact isCanonical_squareTimes (isCanonical_square a) n

theorem domainGenerator_eq_error_iff {log2Size : Nat} :
    (domainGenerator log2Size : Except ArithmeticError (FieldElement M)) =
      .error (.domainTooLarge log2Size) ↔ twoAdicity < log2Size := by
  rw [domainGenerator]
  split
  · next hzero => simp [hzero]
  · split
    · next hle => simp [hle]
    · next hlt => simpa using hlt

section Tower

variable (hroot : orderOf (M.twoAdicRoot.toNat : ZMod M.modulus.toNat) = 2 ^ twoAdicity)

include hroot

theorem squareTimes_twoAdicity : (twoAdicRoot : FieldElement M).squareTimes twoAdicity = 1 := by
  have hM := one_lt_of_orderOf_natCast (by decide) hroot
  have : NeZero M.modulus.toNat := ⟨by omega⟩
  have hpow : (twoAdicRoot : FieldElement M).toZMod ^ 2 ^ twoAdicity = 1 := by
    rw [← hroot]
    exact pow_orderOf_eq_one _
  have hcanonical : ((twoAdicRoot : FieldElement M).squareTimes twoAdicity).IsCanonical :=
    isCanonical_squareTimes_of_pos _ (Nat.succ_pos 31)
  rw [← hcanonical.toZMod_inj (isCanonical_one hM), toZMod_squareTimes, toZMod_one, hpow]

theorem domainGenerator_of_le {log2Size : Nat} (h : log2Size ≤ twoAdicity) :
    (domainGenerator log2Size : Except ArithmeticError (FieldElement M)) =
      .ok (twoAdicRoot.squareTimes (twoAdicity - log2Size)) := by
  rw [domainGenerator]
  by_cases hzero : log2Size = 0
  · rw [if_pos hzero, hzero, Nat.sub_zero, squareTimes_twoAdicity hroot]
  · rw [if_neg hzero, if_pos h]

theorem orderOf_squareTimes {log2Size : Nat} (h : log2Size ≤ twoAdicity) :
    orderOf ((twoAdicRoot : FieldElement M).squareTimes (twoAdicity - log2Size)).toZMod =
      2 ^ log2Size := by
  have hM := one_lt_of_orderOf_natCast (by decide) hroot
  have : NeZero M.modulus.toNat := ⟨by omega⟩
  have horder : orderOf (twoAdicRoot : FieldElement M).toZMod = 2 ^ twoAdicity := hroot
  have hdvd : 2 ^ (twoAdicity - log2Size) ∣ orderOf (twoAdicRoot : FieldElement M).toZMod := by
    rw [horder]
    exact Nat.pow_dvd_pow 2 (Nat.sub_le _ _)
  rw [toZMod_squareTimes, orderOf_pow_of_dvd (Nat.two_pow_pos _).ne' hdvd, horder,
    Nat.pow_div (Nat.sub_le _ _) Nat.two_pos, Nat.sub_sub_self h]

end Tower

theorem toNat_pow_mod_eq_one_iff (hM : 1 < M.modulus.toNat) (a : FieldElement M) (n : Nat) :
    a.value.toNat ^ n % M.modulus.toNat = 1 ↔ a.toZMod ^ n = 1 := by
  have hcast := ZMod.natCast_eq_natCast_iff' (a.value.toNat ^ n) 1 M.modulus.toNat
  rw [Nat.mod_eq_of_lt hM, Nat.cast_pow, Nat.cast_one] at hcast
  exact hcast.symm

theorem pow_eq_one_iff [Fact M.modulus.toNat.Prime] {a : FieldElement M} (ha : a.toZMod ≠ 0)
    (exponent : UInt256) : a.pow exponent = 1 ↔ a.toZMod ^ exponent.toNat = 1 := by
  have hM : 1 < M.modulus.toNat := (Fact.out : M.modulus.toNat.Prime).one_lt
  rw [← (isCanonical_pow hM a exponent).toZMod_inj (isCanonical_one hM),
    toZMod_pow_of_ne_zero ha, toZMod_one]

/-- Over both fields of the cycle, and over every ring of residues with a root of order `2 ^ 32`:
the only domains there are none for are those larger than `2 ^ 32`, the generator of any other has
exactly the order of the domain, and squared it generates the next smaller one. -/
theorem domainGenerator_tower :
    orderOf (fp.twoAdicRoot.toNat : ZMod fp.modulus.toNat) = 2 ^ 32 ∧
    orderOf (fq.twoAdicRoot.toNat : ZMod fq.modulus.toNat) = 2 ^ 32 ∧
    ∀ M : FieldParams, orderOf (M.twoAdicRoot.toNat : ZMod M.modulus.toNat) = 2 ^ 32 →
      (∀ k, (domainGenerator k : Except ArithmeticError (FieldElement M)) =
        .error (.domainTooLarge k) ↔ 32 < k) ∧
      (∀ k ≤ 32, ∃ g : FieldElement M, domainGenerator k = .ok g ∧
        (∀ j, g.value.toNat ^ j % M.modulus.toNat = 1 ↔ 2 ^ k ∣ j) ∧
        (M.modulus.toNat.Prime → ∀ exponent, g.pow exponent = 1 ↔ 2 ^ k ∣ exponent.toNat)) ∧
      ∀ j k, j ≤ k → k ≤ 32 → ∃ g h : FieldElement M,
        domainGenerator k = .ok g ∧ domainGenerator j = .ok h ∧ g.squareTimes (k - j) = h := by
  refine ⟨isTwoAdicPrime_fp.order_root, isTwoAdicPrime_fq.order_root, ?_⟩
  intro M hroot
  have hM := one_lt_of_orderOf_natCast (by decide) hroot
  refine ⟨fun k => domainGenerator_eq_error_iff, fun k hk => ?_, fun j k hjk hk => ?_⟩
  · have horder := orderOf_squareTimes hroot hk
    refine ⟨_, domainGenerator_of_le hroot hk, fun j => ?_, fun hprime exponent => ?_⟩
    · rw [toNat_pow_mod_eq_one_iff hM, ← orderOf_dvd_iff_pow_eq_one, horder]
    · have : Fact M.modulus.toNat.Prime := ⟨hprime⟩
      have hne : ((twoAdicRoot : FieldElement M).squareTimes (twoAdicity - k)).toZMod ≠ 0 := by
        intro hzero
        rw [hzero, orderOf_zero] at horder
        exact (Nat.two_pow_pos k).ne horder
      rw [pow_eq_one_iff hne, ← orderOf_dvd_iff_pow_eq_one, horder]
  · refine ⟨_, _, domainGenerator_of_le hroot hk, domainGenerator_of_le hroot (hjk.trans hk), ?_⟩
    rw [← squareTimes_add]
    congr 1
    change k ≤ twoAdicity at hk
    omega

theorem domainGenerator_of_1024 :
    (domainGenerator 33 : Except ArithmeticError Fp) = .error (.domainTooLarge 33) ∧
      ∃ g h : Fp, domainGenerator 10 = .ok g ∧ domainGenerator 3 = .ok h ∧
        g.squareTimes 7 = h ∧ g.value.toNat ^ 1024 % fp.modulus.toNat = 1 ∧
        g.value.toNat ^ 512 % fp.modulus.toNat ≠ 1 ∧ g.pow (.ofLimb 1024) = 1 := by
  obtain ⟨herror, hgenerates, htower⟩ := domainGenerator_tower.2.2 .fp domainGenerator_tower.1
  obtain ⟨g, hg, horder, hpow⟩ := hgenerates 10 (by decide)
  obtain ⟨g', h, hg', hh, hsquares⟩ := htower 3 10 (by decide) (by decide)
  obtain rfl : g = g' := Except.ok.inj (hg.symm.trans hg')
  exact ⟨(herror 33).2 (by decide), g, h, hg, hh, hsquares, (horder 1024).2 (by decide),
    fun hhalf => absurd ((horder 512).1 hhalf) (by decide),
    (hpow prime_fp (.ofLimb 1024)).2 (by decide)⟩

end FieldElement

end PallasVesta
