import Mathlib.NumberTheory.LucasPrimality
import PallasVesta.Field.Basic

namespace PallasVesta

def powMod (modulus : Nat) : Nat → Nat → Nat → Nat
  | 0, _, _ => 1 % modulus
  | width + 1, base, exponent =>
      let rest := powMod modulus width (base * base % modulus) (exponent / 2)
      if exponent % 2 = 1 then base * rest % modulus else rest

theorem powMod_lt {modulus : Nat} (h : 0 < modulus) (width base exponent : Nat) :
    powMod modulus width base exponent < modulus := by
  induction width generalizing base exponent with
  | zero => exact Nat.mod_lt _ h
  | succ width ih =>
      rw [powMod]
      split
      · exact Nat.mod_lt _ h
      · exact ih _ _

theorem natCast_powMod (modulus : Nat) {width : Nat} (base : Nat) {exponent : Nat}
    (h : exponent < 2 ^ width) :
    (powMod modulus width base exponent : ZMod modulus) = (base : ZMod modulus) ^ exponent := by
  induction width generalizing base exponent with
  | zero =>
      have hzero : exponent = 0 := by rwa [pow_zero, Nat.lt_one_iff] at h
      rw [hzero, powMod, ZMod.natCast_mod, Nat.cast_one, pow_zero]
  | succ width ih =>
      have hhalf : exponent / 2 < 2 ^ width := by
        rw [pow_succ] at h
        omega
      have hrest := ih (base * base % modulus) hhalf
      rw [ZMod.natCast_mod, Nat.cast_mul, ← pow_two (base : ZMod modulus), ← pow_mul] at hrest
      rw [powMod]
      split
      · rename_i hodd
        rw [ZMod.natCast_mod, Nat.cast_mul, hrest, ← pow_succ',
          show 2 * (exponent / 2) + 1 = exponent by omega]
      · rw [hrest, show 2 * (exponent / 2) = exponent by omega]

theorem natCast_pow_eq_iff {modulus : Nat} (hmodulus : 0 < modulus) {width : Nat} (base : Nat)
    {exponent value : Nat} (h : exponent < 2 ^ width) (hvalue : value < modulus) :
    (base : ZMod modulus) ^ exponent = value ↔ powMod modulus width base exponent = value := by
  rw [← natCast_powMod modulus base h, ZMod.natCast_eq_natCast_iff, Nat.ModEq,
    Nat.mod_eq_of_lt (powMod_lt hmodulus _ _ _), Nat.mod_eq_of_lt hvalue]

structure PrimeClaim where
  number : Nat
  /-- A root of which every residue but zero is a power. -/
  root : Nat
  /-- The prime factors of the number before `number`, each as often as it occurs. -/
  factors : List Nat

namespace PrimeClaim

/-- The test of Lucas, for factors among `primes`. -/
def passes (primes : List Nat) (claim : PrimeClaim) : Bool :=
  let power := powMod claim.number (claim.number.log2 + 1) claim.root
  1 < claim.number && claim.factors.prod + 1 == claim.number && power (claim.number - 1) == 1 &&
    claim.factors.all fun factor =>
      primes.contains factor && power ((claim.number - 1) / factor) != 1

theorem prime_of_passes {primes : List Nat} (hprimes : ∀ p ∈ primes, p.Prime) {claim : PrimeClaim}
    (h : claim.passes primes = true) : claim.number.Prime := by
  simp only [passes, Bool.and_eq_true, decide_eq_true_eq, beq_iff_eq, List.all_eq_true,
    List.contains_iff_mem, bne_iff_ne] at h
  obtain ⟨⟨⟨hone, hprod⟩, hroot⟩, hfactors⟩ := h
  have hpow (exponent : Nat) (hle : exponent ≤ claim.number - 1) :
      (claim.root : ZMod claim.number) ^ exponent = 1 ↔
        powMod claim.number (claim.number.log2 + 1) claim.root exponent = 1 := by
    have hlt : exponent < 2 ^ (claim.number.log2 + 1) :=
      Nat.lt_of_le_of_lt (Nat.le_trans hle (Nat.sub_le _ _)) Nat.lt_log2_self
    rw [← natCast_pow_eq_iff (by omega) claim.root hlt hone, Nat.cast_one]
  apply lucas_primality claim.number (claim.root : ZMod claim.number)
  · exact (hpow _ (le_refl _)).2 hroot
  · intro q hq hdvd
    rw [← hprod, Nat.add_sub_cancel] at hdvd
    obtain ⟨factor, hmem, hqf⟩ := (Prime.dvd_prod_iff hq.prime).1 hdvd
    obtain ⟨hknown, hne⟩ := hfactors factor hmem
    have heq : q = factor := (Nat.prime_dvd_prime_iff_eq hq (hprimes factor hknown)).1 hqf
    rw [heq, ne_eq, hpow _ (Nat.div_le_self _ _)]
    exact hne

def allPass : List PrimeClaim → Bool
  | [] => true
  | claim :: claims => claim.passes (claims.map number) && allPass claims

theorem prime_of_allPass {claims : List PrimeClaim} (h : allPass claims = true) :
    ∀ p ∈ claims.map number, p.Prime := by
  induction claims with
  | nil => exact fun p hp => absurd hp List.not_mem_nil
  | cons claim claims ih =>
      rw [allPass, Bool.and_eq_true] at h
      intro p hp
      rw [List.map_cons, List.mem_cons] at hp
      rcases hp with rfl | hp
      · exact prime_of_passes (ih h.2) h.1
      · exact ih h.2 p hp

end PrimeClaim

/-- The two moduli, and the primes that their claims rest on. -/
def moduliClaims : List PrimeClaim :=
  [⟨0x40000000000000000000000000000000224698fc0994a8dd8c46eb2100000001, 5, List.replicate 32 2 ++ [
     3, 3, 1709, 24859, 1690502597179744445941507, 10427374428728808478656897599072717]⟩,
   ⟨0x40000000000000000000000000000000224698fc094cf91b992d30ed00000001, 5, List.replicate 32 2 ++ [
     3, 463, 539204044132271846773, 8999194758858563409123804352480028797519453]⟩,
   ⟨8999194758858563409123804352480028797519453, 2, [
     2, 2, 3, 3, 3, 3, 11, 2531, 115603, 1197907, 22160661629, 325086459374267]⟩,
   ⟨10427374428728808478656897599072717, 2, [2, 2, 294793, 4229279, 399082391, 5239247429827]⟩,
   ⟨1690502597179744445941507, 2, [2, 3, 13, 4129989133, 5247740253619]⟩,
   ⟨539204044132271846773, 5, [2, 2, 3, 3, 3, 3, 3, 89, 14923, 417677162933]⟩,
   ⟨325086459374267, 2, [2, 509, 413527, 772231]⟩,
   ⟨5247740253619, 2, [2, 3, 3, 3, 17, 71, 80513981]⟩,
   ⟨5239247429827, 2, [2, 3, 3, 757, 12149, 31649]⟩, ⟨417677162933, 2, [2, 2, 59, 1973, 897019]⟩,
   ⟨22160661629, 3, [2, 2, 7, 19, 41655379]⟩, ⟨4129989133, 5, [2, 2, 3, 359, 958679]⟩,
   ⟨399082391, 7, [2, 5, 7, 5701177]⟩, ⟨80513981, 2, [2, 2, 5, 4025699]⟩,
   ⟨41655379, 2, [2, 3, 6942563]⟩, ⟨6942563, 2, [2, 11, 17, 19, 977]⟩,
   ⟨5701177, 7, [2, 2, 2, 3, 3, 13, 6091]⟩, ⟨4229279, 13, [2, 827, 2557]⟩,
   ⟨4025699, 2, [2, 2012849]⟩, ⟨2012849, 3, [2, 2, 2, 2, 125803]⟩, ⟨1197907, 3, [2, 3, 53, 3767]⟩,
   ⟨958679, 7, [2, 7, 68477]⟩, ⟨897019, 2, [2, 3, 149503]⟩, ⟨772231, 6, [2, 3, 5, 25741]⟩,
   ⟨413527, 3, [2, 3, 41, 41, 41]⟩, ⟨294793, 10, [2, 2, 2, 3, 71, 173]⟩,
   ⟨149503, 3, [2, 3, 24917]⟩, ⟨125803, 3, [2, 3, 3, 29, 241]⟩, ⟨115603, 2, [2, 3, 19267]⟩,
   ⟨68477, 2, [2, 2, 17, 19, 53]⟩, ⟨31649, 3, [2, 2, 2, 2, 2, 23, 43]⟩,
   ⟨25741, 6, [2, 2, 3, 3, 5, 11, 13]⟩, ⟨24917, 2, [2, 2, 6229]⟩, ⟨24859, 2, [2, 3, 3, 1381]⟩,
   ⟨19267, 3, [2, 3, 13, 13, 19]⟩, ⟨14923, 2, [2, 3, 3, 829]⟩, ⟨12149, 2, [2, 2, 3037]⟩,
   ⟨6229, 2, [2, 2, 3, 3, 173]⟩, ⟨6091, 7, [2, 3, 5, 7, 29]⟩, ⟨3767, 5, [2, 7, 269]⟩,
   ⟨3037, 2, [2, 2, 3, 11, 23]⟩, ⟨2557, 2, [2, 2, 3, 3, 71]⟩, ⟨2531, 2, [2, 5, 11, 23]⟩,
   ⟨1973, 2, [2, 2, 17, 29]⟩, ⟨1709, 3, [2, 2, 7, 61]⟩, ⟨1381, 2, [2, 2, 3, 5, 23]⟩,
   ⟨977, 3, [2, 2, 2, 2, 61]⟩, ⟨829, 2, [2, 2, 3, 3, 23]⟩, ⟨827, 2, [2, 7, 59]⟩,
   ⟨757, 2, [2, 2, 3, 3, 3, 7]⟩, ⟨509, 2, [2, 2, 127]⟩, ⟨463, 3, [2, 3, 7, 11]⟩,
   ⟨359, 7, [2, 179]⟩, ⟨269, 2, [2, 2, 67]⟩, ⟨241, 7, [2, 2, 2, 2, 3, 5]⟩, ⟨179, 2, [2, 89]⟩,
   ⟨173, 2, [2, 2, 43]⟩, ⟨127, 3, [2, 3, 3, 7]⟩, ⟨89, 3, [2, 2, 2, 11]⟩, ⟨71, 7, [2, 5, 7]⟩,
   ⟨67, 2, [2, 3, 11]⟩, ⟨61, 2, [2, 2, 3, 5]⟩, ⟨59, 2, [2, 29]⟩, ⟨53, 2, [2, 2, 13]⟩,
   ⟨43, 3, [2, 3, 7]⟩, ⟨41, 6, [2, 2, 2, 5]⟩, ⟨29, 2, [2, 2, 7]⟩, ⟨23, 5, [2, 11]⟩,
   ⟨19, 2, [2, 3, 3]⟩, ⟨17, 3, [2, 2, 2, 2]⟩, ⟨13, 2, [2, 2, 3]⟩, ⟨11, 2, [2, 5]⟩, ⟨7, 3, [2, 3]⟩,
   ⟨5, 2, [2, 2]⟩, ⟨3, 2, [2]⟩, ⟨2, 1, []⟩]

theorem allPass_moduliClaims : PrimeClaim.allPass moduliClaims = true := by
  decide +kernel

namespace FieldParams

theorem prime_fp : fp.modulus.toNat.Prime :=
  PrimeClaim.prime_of_allPass allPass_moduliClaims _ (by decide)

theorem prime_fq : fq.modulus.toNat.Prime :=
  PrimeClaim.prime_of_allPass allPass_moduliClaims _ (by decide)

instance : Fact fp.modulus.toNat.Prime := ⟨prime_fp⟩

instance : Fact fq.modulus.toNat.Prime := ⟨prime_fq⟩

end FieldParams

end PallasVesta
