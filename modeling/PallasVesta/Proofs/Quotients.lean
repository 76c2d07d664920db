import PallasVesta.Proofs.Inverses
import PallasVesta.Proofs.Primality
import PallasVesta.Proofs.ResidueRing

namespace PallasVesta.FieldElement

variable {M : FieldParams}

def IsInvertible (a : FieldElement M) : Prop := ∃ x : FieldElement M, x.IsCanonical ∧ x * a = 1

section

variable (hM : 2 ≤ M.modulus.toNat) {a b : FieldElement M}

include hM

theorem exists_inverse_of_coprime (h : a.value.toNat.gcd M.modulus.toNat = 1) :
    ∃ x : FieldElement M, a.inverse = .ok x ∧ x.IsCanonical ∧ x * a = 1 := by
  have : NeZero M.modulus.toNat := ⟨by omega⟩
  rw [Nat.gcd_comm] at h
  obtain ⟨x, hx, hmul, hok⟩ := (inverse_spec hM a).1 h
  refine ⟨x, hok, hx, ?_⟩
  rwa [← (isCanonical_mul x a).toZMod_inj (isCanonical_one hM), toZMod_mul, toZMod_one]

theorem inverse_of_not_coprime (h : a.value.toNat.gcd M.modulus.toNat ≠ 1) :
    a.inverse = .error .uninvertible := by
  rw [Nat.gcd_comm] at h
  exact (inverse_spec hM a).2 h

theorem isInvertible_iff_coprime : a.IsInvertible ↔ a.value.toNat.gcd M.modulus.toNat = 1 := by
  have : NeZero M.modulus.toNat := ⟨by omega⟩
  constructor
  · rintro ⟨x, -, hmul⟩
    have hunit : x.toZMod * a.toZMod = 1 := by rw [← toZMod_mul, hmul, toZMod_one]
    exact (ZMod.isUnit_iff_coprime _ _).1 (IsUnit.of_mul_eq_one_right _ hunit)
  · intro h
    obtain ⟨x, -, hx, hmul⟩ := exists_inverse_of_coprime hM h
    exact ⟨x, hx, hmul⟩

theorem exists_div_of_isInvertible (ha : a.IsCanonical) (hb : b.IsInvertible) :
    ∃ c : FieldElement M, a.div b = .ok c ∧ c.IsCanonical ∧ c * b = a := by
  have : NeZero M.modulus.toNat := ⟨by omega⟩
  obtain ⟨x, hok, -, hmul⟩ := exists_inverse_of_coprime hM ((isInvertible_iff_coprime hM).1 hb)
  refine ⟨a * x, by rw [div, hok]; rfl, isCanonical_mul a x, ?_⟩
  rw [← (isCanonical_mul _ b).toZMod_inj ha, toZMod_mul, toZMod_mul, mul_assoc, ← toZMod_mul x,
    hmul, toZMod_one, mul_one]

theorem div_of_not_isInvertible (hb : ¬b.IsInvertible) : a.div b = .error .uninvertible := by
  rw [isInvertible_iff_coprime hM] at hb
  rw [div, inverse_of_not_coprime hM hb]
  rfl

end

theorem inverse_fails_iff [hprime : Fact M.modulus.toNat.Prime] {a : FieldElement M}
    (ha : a.IsCanonical) : (∃ cause, a.inverse = .error cause) ↔ a = 0 := by
  constructor
  · rintro ⟨cause, hfail⟩
    by_contra hne
    rw [← ha.toZMod_eq_zero_iff] at hne
    obtain ⟨x, -, -, hok⟩ := exists_inverse hne
    rw [hfail] at hok
    nomatch hok
  · rintro rfl
    exact ⟨.uninvertible, inverse_zero⟩

/-- An element has an inverse exactly if it is coprime to the modulus, and otherwise the one error
is that it has none. The same holds of the quotients by it. -/
theorem inverse_and_quotient_exact :
    (∀ M : FieldParams, 2 ≤ M.modulus.toNat →
      (∀ a : FieldElement M, a.IsCanonical →
        (a.value.toNat.gcd M.modulus.toNat = 1 → ∃ x : FieldElement M, a.inverse = .ok x ∧
          x.IsCanonical ∧ a.value.toNat * x.value.toNat % M.modulus.toNat = 1) ∧
        (a.value.toNat.gcd M.modulus.toNat ≠ 1 → a.inverse = .error .uninvertible)) ∧
      ∀ a b : FieldElement M, a.IsCanonical → b.IsCanonical →
        (b.IsInvertible → ∃ c : FieldElement M, a.div b = .ok c ∧ c.IsCanonical ∧ c * b = a) ∧
        (¬b.IsInvertible → a.div b = .error .uninvertible)) ∧
    (∀ a : Fp, a.IsCanonical → ((∃ cause, a.inverse = .error cause) ↔ a = 0)) ∧
    ∀ a : Fq, a.IsCanonical → ((∃ cause, a.inverse = .error cause) ↔ a = 0) := by
  refine ⟨fun M hM => ⟨fun a _ => ⟨?_, inverse_of_not_coprime hM⟩, fun a b ha _ =>
    ⟨exists_div_of_isInvertible hM ha, div_of_not_isInvertible hM⟩⟩,
    fun _ => inverse_fails_iff, fun _ => inverse_fails_iff⟩
  intro h
  have : NeZero M.modulus.toNat := ⟨by omega⟩
  obtain ⟨x, hok, hx, hmul⟩ := exists_inverse_of_coprime hM h
  refine ⟨x, hok, hx, ?_⟩
  rw [Nat.mul_comm, ← toNat_mul, hmul]
  rfl

theorem inverse_of_two_and_three :
    2 ≤ FieldParams.largest.modulus.toNat ∧
      (⟨.ofLimb 2⟩ : FieldElement .largest).IsCanonical ∧
      (⟨.ofLimb 3⟩ : FieldElement .largest).IsCanonical ∧
      (∃ x : FieldElement .largest, (⟨.ofLimb 2⟩ : FieldElement .largest).inverse = .ok x ∧
        x.IsCanonical ∧ 2 * x.value.toNat % FieldParams.largest.modulus.toNat = 1) ∧
      (⟨.ofLimb 3⟩ : FieldElement .largest).inverse = .error .uninvertible :=
  have hM : 2 ≤ FieldParams.largest.modulus.toNat := by decide
  have htwo : (⟨.ofLimb 2⟩ : FieldElement .largest).IsCanonical := by
    rw [IsCanonical]
    decide
  have hthree : (⟨.ofLimb 3⟩ : FieldElement .largest).IsCanonical := by
    rw [IsCanonical]
    decide
  have h := (inverse_and_quotient_exact.1 .largest hM).1
  ⟨hM, htwo, hthree, (h _ htwo).1 (by decide), (h _ hthree).2 (by decide)⟩

end PallasVesta.FieldElement
