import PallasVesta.Proofs.SquareRoots

namespace PallasVesta

/-- The modulus `3 * 2 ^ 32 + 1`, which is divisible by 19. -/
def FieldParams.composite : FieldParams where
  name := "composite"
  modulus := .ofLimb 0x300000001
  oddFactor := .ofLimb 3
  twoAdicRoot := .ofLimb 3

namespace FieldElement

variable {M : FieldParams}

theorem squaringsToOne_pos {a : FieldElement M} (hne : a ≠ 1) {limit : Nat} (h : 1 ≤ limit) :
    1 ≤ a.squaringsToOne limit := by
  cases limit with
  | zero => nomatch h
  | succ limit =>
      rw [squaringsToOne, if_neg hne]
      exact Nat.le_add_left 1 _

namespace RootSearch

/-- One round: an answer, or the state from which the search goes on. -/
def round (search : RootSearch M) : Option (FieldElement M) ⊕ RootSearch M :=
  if search.residue.isZero then .inl (some 0)
  else if search.residue = 1 then .inl (some search.root)
  else if search.residue.squaringsToOne search.bound < search.bound then
    .inr (search.advance (search.residue.squaringsToOne search.bound))
  else .inl none

def runWithin (search : RootSearch M) : Nat → Option (Option (FieldElement M))
  | 0 => none
  | rounds + 1 =>
    match search.round with
    | .inl answer => some answer
    | .inr next => next.runWithin rounds

def stateAfter (search : RootSearch M) : Nat → Option (RootSearch M)
  | 0 => some search
  | rounds + 1 =>
    match search.round with
    | .inl _ => none
    | .inr next => next.stateAfter rounds

theorem run_eq_round (search : RootSearch M) :
    search.run = match search.round with
      | .inl answer => answer
      | .inr next => next.run := by
  by_cases hzero : search.residue.isZero
  · rw [run, round, if_pos hzero, if_pos hzero]
  · rw [run, round, if_neg hzero, if_neg hzero]
    by_cases hone : search.residue = 1
    · rw [if_pos hone, if_pos hone]
    · rw [if_neg hone, if_neg hone]
      by_cases hlt : search.residue.squaringsToOne search.bound < search.bound
      · rw [if_pos hlt, if_pos hlt]
      · rw [if_neg hlt, if_neg hlt]

section Advance

variable {search next : RootSearch M} (h : search.round = .inr next)

include h

theorem of_round_eq_inr :
    search.residue ≠ 1 ∧ search.residue.squaringsToOne search.bound < search.bound ∧
      next = search.advance (search.residue.squaringsToOne search.bound) := by
  rw [round] at h
  split at h
  · nomatch h
  · split at h
    · nomatch h
    · next hone =>
        split at h
        · next hlt => exact ⟨hone, hlt, (Sum.inr.inj h).symm⟩
        · nomatch h

theorem bound_lt_of_round : next.bound < search.bound := by
  obtain ⟨-, hlt, rfl⟩ := of_round_eq_inr h
  exact hlt

theorem one_le_bound_of_round : 1 ≤ next.bound := by
  obtain ⟨hone, hlt, rfl⟩ := of_round_eq_inr h
  exact squaringsToOne_pos hone (Nat.one_le_of_lt hlt)

end Advance

/-- As many rounds as the bound are enough. -/
theorem runWithin_eq_run {search : RootSearch M} (hpos : 1 ≤ search.bound) {rounds : Nat}
    (h : search.bound ≤ rounds) : search.runWithin rounds = some search.run := by
  induction rounds generalizing search with
  | zero => omega
  | succ rounds ih =>
      rw [runWithin, run_eq_round]
      cases hround : search.round with
      | inl answer => rfl
      | inr next =>
          have hlt := bound_lt_of_round hround
          exact ih (one_le_bound_of_round hround) (by omega)

/-- Each round before it has lowered the bound of a state at least by one. -/
theorem bound_of_stateAfter {search last : RootSearch M} (hpos : 1 ≤ search.bound) {rounds : Nat}
    (h : search.stateAfter rounds = some last) :
    1 ≤ last.bound ∧ last.bound + rounds ≤ search.bound := by
  induction rounds generalizing search with
  | zero =>
      rw [← Option.some.inj h]
      exact ⟨hpos, Nat.le_refl _⟩
  | succ rounds ih =>
      rw [stateAfter] at h
      cases hround : search.round with
      | inl answer =>
          rw [hround] at h
          nomatch h
      | inr next =>
          rw [hround] at h
          have hlt := bound_lt_of_round hround
          obtain ⟨hlast, hle⟩ := ih (one_le_bound_of_round hround) h
          exact ⟨hlast, by omega⟩

end RootSearch

/-- Prime or composite, a search takes at most 32 rounds. Where one of them goes on, the bound falls
but stays positive, and the exponent of the step is a difference that does not fall below zero. An
answer other than zero is a root. -/
theorem sqrt_ends_and_is_sound {M : FieldParams} (hM : M.IsTwoAdic) (a : FieldElement M) :
    (RootSearch.start a).runWithin 32 = some a.sqrt ∧
    (∀ rounds search, (RootSearch.start a).stateAfter rounds = some search →
      1 ≤ search.bound ∧ search.bound + rounds ≤ 32 ∧
      ∀ next, search.round = .inr next →
        search.residue.squaringsToOne search.bound + 1 ≤ search.bound ∧
        next = search.advance (search.residue.squaringsToOne search.bound) ∧
        next.bound < search.bound) ∧
    ∀ r, a.sqrt = some r → r ≠ 0 →
      r.value.toNat * r.value.toNat % M.modulus.toNat = a.value.toNat % M.modulus.toNat ∧
      (a.IsCanonical → r * r = a) := by
  have hmodulus := hM.one_lt_modulus
  have : NeZero M.modulus.toNat := ⟨by omega⟩
  have hbound : 1 ≤ (RootSearch.start a).bound := Nat.le_add_left 1 31
  refine ⟨RootSearch.runWithin_eq_run hbound (Nat.le_refl 32), ?_, ?_⟩
  · intro rounds search hsearch
    obtain ⟨hpos, hle⟩ := RootSearch.bound_of_stateAfter hbound hsearch
    refine ⟨hpos, hle, fun next hnext => ?_⟩
    obtain ⟨-, hlt, hadvance⟩ := RootSearch.of_round_eq_inr hnext
    exact ⟨hlt, hadvance, RootSearch.bound_lt_of_round hnext⟩
  · intro r hr hne
    have hsq : r.toZMod * r.toZMod = a.toZMod := by
      rw [← sq, RootSearch.sq_of_run (hM.sq_root_start a) hr hne]
    refine ⟨?_, fun ha => ?_⟩
    · rw [← ZMod.natCast_eq_natCast_iff', Nat.cast_mul]
      exact hsq
    · rw [← (isCanonical_mul r r).toZMod_inj ha, toZMod_mul, hsq]

theorem sqrt_modulo_composite :
    FieldParams.composite.IsTwoAdic ∧ 19 ∣ FieldParams.composite.modulus.toNat ∧
      (⟨.ofLimb 0x1a0f99e25⟩ : FieldElement .composite).sqrt = some ⟨.ofLimb 0x163479f90⟩ ∧
      (⟨.ofLimb 0x163479f90⟩ : FieldElement .composite) * ⟨.ofLimb 0x163479f90⟩ =
        ⟨.ofLimb 0x1a0f99e25⟩ ∧
      ∃ search, (RootSearch.start (-1 : FieldElement .composite)).stateAfter 1 = some search ∧
        1 ≤ search.bound ∧ search.bound + 1 ≤ 32 := by
  have hM : FieldParams.composite.IsTwoAdic := ⟨by decide, Nat.odd_iff.2 (by decide)⟩
  have hcanonical : (⟨.ofLimb 0x1a0f99e25⟩ : FieldElement .composite).IsCanonical := by
    rw [IsCanonical]
    decide
  have hrun : (RootSearch.start (⟨.ofLimb 0x1a0f99e25⟩ : FieldElement .composite)).runWithin 32 =
      some (some ⟨.ofLimb 0x163479f90⟩) := by decide +kernel
  obtain ⟨hends, -, hsound⟩ := sqrt_ends_and_is_sound hM ⟨.ofLimb 0x1a0f99e25⟩
  have hsqrt := Option.some.inj (hends.symm.trans hrun)
  obtain ⟨search, hsearch⟩ : ∃ search,
      (RootSearch.start (-1 : FieldElement .composite)).stateAfter 1 = some search :=
    Option.isSome_iff_exists.1 (by decide +kernel)
  obtain ⟨hpos, hle, -⟩ := (sqrt_ends_and_is_sound hM (-1)).2.1 1 search hsearch
  have hroot := (hsound _ hsqrt (by decide)).2 hcanonical
  exact ⟨hM, by decide, hsqrt, hroot, search, hsearch, hpos, hle⟩

end FieldElement

end PallasVesta
