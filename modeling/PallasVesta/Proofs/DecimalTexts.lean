import PallasVesta.Proofs.ByteEncoding
import PallasVesta.Proofs.Numerals

namespace PallasVesta

/-- The text without the zeros in front. A single zero stays where nothing else would. -/
def withoutLeadingZeros (text : List Char) : List Char :=
  match text.dropWhile (· == '0') with
  | [] => ['0']
  | rest => rest

section Digits

variable {n d : Nat}

theorem isDigit_ten_iff {c : Char} : IsDigit 10 c d ↔ d < 10 ∧ c = d.digitChar := by
  have hall : ∀ d < 10, lowerDigits[d]? = some d.digitChar ∧ upperDigits[d]? = some d.digitChar := by
    decide
  constructor
  · rintro ⟨hd, hc⟩
    rw [(hall d hd).1, (hall d hd).2, or_self, Option.some.injEq] at hc
    exact ⟨hd, hc.symm⟩
  · rintro ⟨hd, rfl⟩
    exact ⟨hd, .inl (hall d hd).1⟩

theorem digitChar_eq_zero_iff (hd : d < 10) : d.digitChar = '0' ↔ d = 0 := by
  have hall : ∀ d < 10, d.digitChar = '0' ↔ d = 0 := by decide
  exact hall d hd

theorem toDigits_concat (hn : 0 < n) (hd : d < 10) :
    Nat.toDigits 10 (10 * n + d) = Nat.toDigits 10 n ++ [d.digitChar] := by
  rw [← Nat.toDigits_append_toDigits (by decide) hn hd, Nat.toDigits_of_lt_base hd]

theorem decimal_induction {motive : Nat → Prop} (digit : ∀ d < 10, motive d)
    (concat : ∀ n d, 0 < n → d < 10 → motive n → motive (10 * n + d)) (n : Nat) : motive n := by
  induction n using Nat.strongRecOn with
  | _ n ih =>
      by_cases hn : n < 10
      · exact digit n hn
      · rw [← Nat.div_add_mod n 10]
        exact concat _ _ (by omega) (Nat.mod_lt n (by decide)) (ih _ (by omega))

theorem spells_toDigits (n : Nat) : Spells 10 (Nat.toDigits 10 n) n := by
  induction n using decimal_induction with
  | digit d hd =>
      rw [Nat.toDigits_of_lt_base hd, ← List.nil_append [_], spells_concat]
      exact ⟨0, d, spells_nil.2 rfl, isDigit_ten_iff.2 ⟨hd, rfl⟩, by omega⟩
  | concat n d hn hd ih =>
      rw [toDigits_concat hn hd, spells_concat]
      exact ⟨n, d, ih, isDigit_ten_iff.2 ⟨hd, rfl⟩, rfl⟩

theorem Spells.dropWhile_eq {text : List Char} (h : Spells 10 text n) :
    text.dropWhile (· == '0') = if n = 0 then [] else Nat.toDigits 10 n := by
  induction text using List.reverseRecOn generalizing n with
  | nil =>
      rw [spells_nil] at h
      rw [h, if_pos rfl, List.dropWhile_nil]
  | append_singleton text c ih =>
      obtain ⟨m, d, hm, hc, rfl⟩ := spells_concat.1 h
      obtain ⟨hd, rfl⟩ := isDigit_ten_iff.1 hc
      rw [List.dropWhile_append, ih hm]
      rcases Nat.eq_zero_or_pos m with rfl | hpos
      · -- Nothing but zeros so far, so that the last digit decides.
        have hlast : d.digitChar = '0' ↔ d = 0 := digitChar_eq_zero_iff hd
        rw [if_pos rfl, Nat.mul_zero, Nat.zero_add, List.isEmpty_nil, if_pos rfl,
          Nat.toDigits_of_lt_base hd]
        by_cases hzero : d = 0 <;> simp [hlast, hzero]
      · rw [if_neg hpos.ne', if_neg (by simp), if_neg (by omega), toDigits_concat hpos hd]

theorem Spells.withoutLeadingZeros_eq {text : List Char} (h : Spells 10 text n) :
    withoutLeadingZeros text = Nat.toDigits 10 n := by
  rw [withoutLeadingZeros, h.dropWhile_eq]
  by_cases hn : n = 0
  · rw [if_pos hn, hn, Nat.toDigits_zero]
  · rw [if_neg hn]
    split
    · next hnil => exact absurd hnil Nat.toDigits_ne_nil
    · rfl

/-- The decimal digits of `n` with zeros in front, up to `width` of them. -/
def paddedDigits (width n : Nat) : List Char :=
  List.replicate (width - (Nat.toDigits 10 n).length) '0' ++ Nat.toDigits 10 n

theorem paddedDigits_concat {width : Nat} (hwidth : 0 < width) (hd : d < 10) :
    paddedDigits (width + 1) (10 * n + d) = paddedDigits width n ++ [d.digitChar] := by
  rcases Nat.eq_zero_or_pos n with rfl | hn
  · rw [paddedDigits, paddedDigits, Nat.mul_zero, Nat.zero_add, Nat.toDigits_of_lt_base hd,
      Nat.toDigits_zero, List.length_singleton, List.length_singleton, ← List.replicate_succ',
      Nat.sub_add_cancel hwidth, Nat.add_sub_cancel]
  · rw [paddedDigits, paddedDigits, toDigits_concat hn hd, List.length_append,
      List.length_singleton, Nat.add_sub_add_right, List.append_assoc]

theorem toDigits_append_paddedDigits {width c : Nat} (hn : 0 < n) (hwidth : 0 < width)
    (hc : c < 10 ^ width) :
    Nat.toDigits 10 (10 ^ width * n + c) = Nat.toDigits 10 n ++ paddedDigits width c := by
  induction width, hwidth using Nat.le_induction generalizing c with
  | base =>
      have hc : c < 10 := hc
      rw [paddedDigits, Nat.toDigits_of_lt_base hc, pow_one, toDigits_concat hn hc]
      rfl
  | succ width hwidth ih =>
      have hquotient : c / 10 < 10 ^ width := by
        rw [pow_succ] at hc
        omega
      have hd : c % 10 < 10 := Nat.mod_lt c (by decide)
      have hpos : 0 < 10 ^ width * n + c / 10 :=
        Nat.add_pos_left (Nat.mul_pos (Nat.pow_pos (by decide)) hn) _
      calc Nat.toDigits 10 (10 ^ (width + 1) * n + c)
          = Nat.toDigits 10 (10 * (10 ^ width * n + c / 10) + c % 10) := by
            congr 1
            rw [Nat.mul_add, Nat.add_assoc, Nat.div_add_mod, pow_succ']
            ring
        _ = Nat.toDigits 10 (10 ^ width * n + c / 10) ++ [(c % 10).digitChar] :=
            toDigits_concat hpos hd
        _ = Nat.toDigits 10 n ++ paddedDigits width (c / 10) ++ [(c % 10).digitChar] := by
            rw [ih hquotient]
        _ = Nat.toDigits 10 n ++ paddedDigits (width + 1) c := by
            rw [List.append_assoc, ← paddedDigits_concat hwidth hd, Nat.div_add_mod]

end Digits

namespace UInt256

def joinChunks : List Limb → List Char
  | [] => ['0']
  | leading :: rest => Nat.toDigits 10 leading.toNat ++ rest.flatMap paddedDecimal

theorem toList_toDecimal_eq_joinChunks (a : UInt256) :
    a.toDecimal.toList = joinChunks a.decimalChunks.reverse := by
  rw [toDecimal]
  cases a.decimalChunks.reverse with
  | nil => rfl
  | cons leading rest => rw [joinChunks, String.toList_ofList]

theorem joinChunks_concat {chunks : List Limb} (h : chunks ≠ []) (chunk : Limb) :
    joinChunks (chunks ++ [chunk]) = joinChunks chunks ++ paddedDecimal chunk := by
  cases chunks with
  | nil => exact absurd rfl h
  | cons leading rest => simp [joinChunks]

theorem decimalChunks_eq_nil_iff {a : UInt256} : a.decimalChunks = [] ↔ a.toNat = 0 := by
  rw [← isZero_iff, decimalChunks]
  split
  · next hzero => simp [hzero]
  · next hzero => simp [hzero]

theorem joinChunks_decimalChunks (a : UInt256) :
    joinChunks a.decimalChunks.reverse = Nat.toDigits 10 a.toNat := by
  fun_induction decimalChunks a with
  | case1 a hzero =>
      rw [List.reverse_nil, joinChunks, (isZero_iff a).1 hzero, Nat.toDigits_zero]
  | case2 a hzero ih =>
      have hne : decimalBase ≠ 0 := by decide
      obtain ⟨hexact, hlt⟩ := divLimb_exact a hne
      generalize a.divLimb decimalBase = result at hexact hlt ih ⊢
      obtain ⟨rest, chunk⟩ := result
      have hbase : decimalBase.toNat = 10 ^ 19 := by decide
      rw [hbase] at hexact hlt
      rw [List.reverse_cons]
      rcases Nat.eq_zero_or_pos rest.toNat with hrest | hrest
      · -- The leading chunk stands alone.
        rw [hrest, Nat.zero_mul, Nat.zero_add] at hexact
        rw [decimalChunks_eq_nil_iff.2 hrest, List.reverse_nil, List.nil_append, joinChunks,
          List.flatMap_nil, List.append_nil, hexact]
      · have hchunks : rest.decimalChunks.reverse ≠ [] := by
          rw [ne_eq, List.reverse_eq_nil_iff, decimalChunks_eq_nil_iff]
          exact hrest.ne'
        rw [joinChunks_concat hchunks, ih, ← hexact, Nat.mul_comm,
          toDigits_append_paddedDigits hrest (by decide) hlt]
        rfl

theorem toList_toDecimal (a : UInt256) : a.toDecimal.toList = Nat.toDigits 10 a.toNat := by
  rw [toList_toDecimal_eq_joinChunks, joinChunks_decimalChunks]

theorem toDecimal_ne_empty (a : UInt256) : a.toDecimal ≠ "" := by
  rw [ne_eq, ← String.toList_inj, toList_toDecimal]
  exact Nat.toDigits_ne_nil

theorem ofDecimal_eq_ok_iff {text : String} {value : UInt256} :
    ofDecimal text = .ok value ↔ text ≠ "" ∧ Spells 10 text.toList value.toNat :=
  ofNumeral_eq_ok_iff (by decide) (by decide)

theorem ofDecimal_cases (text : String) :
    (∃ value, ofDecimal text = .ok value) ∨ ofDecimal text = .error (.overflow byteCount) ∨
      ofDecimal text = .error .invalidNumeral :=
  ofNumeral_cases (by decide) (by decide) text

theorem spells_toDecimal (a : UInt256) : Spells 10 a.toDecimal.toList a.toNat := by
  rw [toList_toDecimal]
  exact spells_toDigits a.toNat

theorem ofDecimal_toDecimal (a : UInt256) : ofDecimal a.toDecimal = .ok a :=
  ofDecimal_eq_ok_iff.2 ⟨a.toDecimal_ne_empty, a.spells_toDecimal⟩

theorem toList_toDecimal_of_spells {text : List Char} {a : UInt256} (h : Spells 10 text a.toNat) :
    a.toDecimal.toList = withoutLeadingZeros text := by
  rw [h.withoutLeadingZeros_eq, toList_toDecimal]

end UInt256

namespace FieldElement

variable {M : FieldParams}

theorem ofDecimal_eq_bind (text : String) :
    (ofDecimal text : Except ArithmeticError (FieldElement M)) =
      UInt256.ofDecimal text >>= ofInteger := rfl

theorem ofDecimal_of_error {text : String} {cause : ArithmeticError}
    (h : UInt256.ofDecimal text = .error cause) :
    (ofDecimal text : Except ArithmeticError (FieldElement M)) = .error cause := by
  rw [ofDecimal_eq_bind, h]
  rfl

theorem ofDecimal_eq_ok_iff {text : String} {a : FieldElement M} :
    ofDecimal text = .ok a ↔
      text ≠ "" ∧ Spells 10 text.toList a.value.toNat ∧ a.IsCanonical := by
  rw [ofDecimal_eq_bind, bind_eq_ok_iff, ← and_assoc, ← UInt256.ofDecimal_eq_ok_iff]
  constructor
  · rintro ⟨value, hread, h⟩
    obtain ⟨rfl, hcanonical⟩ := ofInteger_eq_ok_iff.1 h
    exact ⟨hread, hcanonical⟩
  · rintro ⟨hread, hcanonical⟩
    exact ⟨a.value, hread, ofInteger_eq_ok_iff.2 ⟨rfl, hcanonical⟩⟩

theorem ofDecimal_eq_nonCanonical_iff {text : String} :
    (ofDecimal text : Except ArithmeticError (FieldElement M)) = .error .nonCanonical ↔
      text ≠ "" ∧ ∃ n, M.modulus.toNat ≤ n ∧ n < UInt256.size ∧ Spells 10 text.toList n := by
  rw [ofDecimal_eq_bind, bind_eq_error_iff]
  constructor
  · rintro (h | ⟨value, hread, h⟩)
    · -- The reader of integers has no such error.
      rcases UInt256.ofDecimal_cases text with ⟨_, hread⟩ | hread | hread
      all_goals cases hread.symm.trans h
    · obtain ⟨htext, hspells⟩ := UInt256.ofDecimal_eq_ok_iff.1 hread
      exact ⟨htext, value.toNat, ofInteger_eq_nonCanonical_iff.1 h, value.toNat_lt, hspells⟩
  · rintro ⟨htext, n, hle, hlt, hspells⟩
    rw [← UInt256.toNat_ofNat hlt] at hle hspells
    exact .inr ⟨.ofNat n, UInt256.ofDecimal_eq_ok_iff.2 ⟨htext, hspells⟩,
      ofInteger_eq_nonCanonical_iff.2 hle⟩

theorem ofDecimal_toDecimal {a : FieldElement M} (ha : a.IsCanonical) :
    ofDecimal a.toDecimal = .ok a :=
  ofDecimal_eq_ok_iff.2 ⟨a.value.toDecimal_ne_empty, a.value.spells_toDecimal, ha⟩

end FieldElement

/-- An integer is written as the one numeral that spells it without a superfluous zero, and is read
back from it. What is read is written with its superfluous zeros gone. An element is read from the
numerals of its integer; those from the modulus on are not canonical, and where no integer is read
its error stays. -/
theorem decimal_numerals_round_trip :
    (∀ a : UInt256, Spells 10 a.toDecimal.toList a.toNat ∧
      withoutLeadingZeros a.toDecimal.toList = a.toDecimal.toList ∧
      UInt256.ofDecimal a.toDecimal = .ok a) ∧
    UInt256.zero.toDecimal = "0" ∧
    (∀ (text : String) (a : UInt256), UInt256.ofDecimal text = .ok a →
      a.toDecimal.toList = withoutLeadingZeros text.toList) ∧
    ∀ M : FieldParams,
      (∀ (text : String) (a : FieldElement M), FieldElement.ofDecimal text = .ok a ↔
        text ≠ "" ∧ Spells 10 text.toList a.value.toNat ∧ a.value.toNat < M.modulus.toNat) ∧
      (∀ (text : String) (a : FieldElement M), FieldElement.ofDecimal text = .ok a →
        a.toDecimal.toList = withoutLeadingZeros text.toList) ∧
      (∀ text : String,
        (FieldElement.ofDecimal text : Except _ (FieldElement M)) = .error .nonCanonical ↔
          text ≠ "" ∧ ∃ n, M.modulus.toNat ≤ n ∧ n < UInt256.size ∧ Spells 10 text.toList n) ∧
      (∀ (text : String) (cause : ArithmeticError), UInt256.ofDecimal text = .error cause →
        (FieldElement.ofDecimal text : Except _ (FieldElement M)) = .error cause) ∧
      ∀ a : FieldElement M, a.IsCanonical → FieldElement.ofDecimal a.toDecimal = .ok a := by
  refine ⟨fun a => ⟨a.spells_toDecimal, ?_, a.ofDecimal_toDecimal⟩, ?_, ?_, fun M => ?_⟩
  · rw [a.spells_toDecimal.withoutLeadingZeros_eq, UInt256.toList_toDecimal]
  · rw [← String.toList_inj, UInt256.toList_toDecimal]
    rfl
  · intro text a h
    exact UInt256.toList_toDecimal_of_spells (UInt256.ofDecimal_eq_ok_iff.1 h).2
  · refine ⟨fun text a => FieldElement.ofDecimal_eq_ok_iff, ?_, ?_, ?_, ?_⟩
    · intro text a h
      exact UInt256.toList_toDecimal_of_spells (FieldElement.ofDecimal_eq_ok_iff.1 h).2.1
    · exact fun text => FieldElement.ofDecimal_eq_nonCanonical_iff
    · exact fun text cause => FieldElement.ofDecimal_of_error
    · exact fun a => FieldElement.ofDecimal_toDecimal

theorem decimal_of_inner_zeros :
    UInt256.ofDecimal "00100000000000000000000000000000000000001" = .ok (.ofNat (10 ^ 38 + 1)) ∧
      (UInt256.ofNat (10 ^ 38 + 1)).toDecimal.toList =
        "100000000000000000000000000000000000001".toList ∧
      FieldElement.ofDecimal "007" = .ok (⟨.ofLimb 7⟩ : Fp) ∧
      (⟨.ofLimb 7⟩ : Fp).toDecimal.toList = ['7'] ∧
      (FieldElement.ofDecimal FieldParams.fp.modulus.toDecimal : Except _ Fp) =
        .error .nonCanonical ∧
      UInt256.ofDecimal "-1" = .error .invalidNumeral ∧
      (FieldElement.ofDecimal "-1" : Except _ Fp) = .error .invalidNumeral ∧
      (-1 : Fp).IsCanonical ∧ FieldElement.ofDecimal (-1 : Fp).toDecimal = .ok (-1 : Fp) := by
  obtain ⟨hwritten, -, hread, helements⟩ := decimal_numerals_round_trip
  obtain ⟨-, hstripped, hlarge, herror, hback⟩ := helements .fp
  have hzeros : UInt256.ofDecimal "00100000000000000000000000000000000000001" =
      .ok (.ofNat (10 ^ 38 + 1)) := by decide
  have hseven : FieldElement.ofDecimal "007" = .ok (⟨.ofLimb 7⟩ : Fp) := by decide
  have hsign : UInt256.ofDecimal "-1" = .error .invalidNumeral := by decide
  have hone : (-1 : Fp).IsCanonical := FieldElement.isCanonical_neg 1
  refine ⟨hzeros, ?_, hseven, ?_, ?_, hsign, herror _ _ hsign, hone, hback _ hone⟩
  · exact (hread _ _ hzeros).trans (by decide)
  · exact (hstripped _ _ hseven).trans (by decide)
  · exact (hlarge _).2 ⟨UInt256.toDecimal_ne_empty _, _, le_refl _, UInt256.toNat_lt _,
      (hwritten _).1⟩

end PallasVesta
