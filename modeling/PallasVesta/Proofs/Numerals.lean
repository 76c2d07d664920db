import Mathlib.Data.List.Forall2
import Mathlib.Data.Nat.Digits.Defs
import PallasVesta.Proofs.FieldRing

namespace PallasVesta

def lowerDigits : List Char := "0123456789abcdefghijklmnopqrstuvwxyz".toList

def upperDigits : List Char := "0123456789ABCDEFGHIJKLMNOPQRSTUVWXYZ".toList

/-- In base `radix` the character `c` is the digit `d`. A letter may be of either case. -/
def IsDigit (radix : Nat) (c : Char) (d : Nat) : Prop :=
  d < radix ∧ (lowerDigits[d]? = some c ∨ upperDigits[d]? = some c)

/-- All characters are digits in base `radix`, and `n` is what they stand for by their places, of
which the last counts one. -/
def Spells (radix : Nat) (text : List Char) (n : Nat) : Prop :=
  ∃ digits, List.Forall₂ (IsDigit radix) text.reverse digits ∧ Nat.ofDigits radix digits = n

section Digits

variable {radix d : Nat} {c : Char}

instance : Decidable (IsDigit radix c d) := inferInstanceAs (Decidable (_ ∧ _))

theorem getElem?_eq_of_range {digits : List Char} {first last : Char} (offset : Nat)
    (hdigits : ∀ k < last.toNat + 1 - first.toNat,
      digits[k + offset]? = some (.ofNat (k + first.toNat)))
    (h : first ≤ c ∧ c ≤ last) : digits[c.toNat - first.toNat + offset]? = some c := by
  have hfirst : first.toNat ≤ c.toNat := h.1
  have hlast : c.toNat ≤ last.toNat := h.2
  rw [hdigits _ (by omega), Nat.sub_add_cancel hfirst, Char.ofNat_toNat]

theorem isDigit_of_digitValue? (h : digitValue? radix c = some d) : IsDigit radix c d := by
  simp only [digitValue?, Option.filter_eq_some_iff, decide_eq_true_eq] at h
  obtain ⟨hvalue, hlt⟩ := h
  refine ⟨hlt, ?_⟩
  split at hvalue
  · next hrange =>
      obtain rfl := Option.some.inj hvalue
      exact .inl (getElem?_eq_of_range 0 (by decide) hrange)
  split at hvalue
  · next hrange =>
      obtain rfl := Option.some.inj hvalue
      exact .inl (getElem?_eq_of_range 10 (by decide) hrange)
  split at hvalue
  · next hrange =>
      obtain rfl := Option.some.inj hvalue
      exact .inr (getElem?_eq_of_range 10 (by decide) hrange)
  · cases hvalue

theorem digitValue?_of_isDigit (h : IsDigit radix c d) : digitValue? radix c = some d := by
  obtain ⟨hlt, hc⟩ := h
  have hlower : ∀ p ∈ lowerDigits.zipIdx, digitValue? 36 p.1 = some p.2 := by decide
  have hupper : ∀ p ∈ upperDigits.zipIdx, digitValue? 36 p.1 = some p.2 := by decide
  have hvalue : digitValue? 36 c = some d := by
    rcases hc with hc | hc
    · exact hlower (c, d) (List.mk_mem_zipIdx_iff_getElem?.2 hc)
    · exact hupper (c, d) (List.mk_mem_zipIdx_iff_getElem?.2 hc)
  -- The base only decides which digits are too large.
  simp only [digitValue?, Option.filter_eq_some_iff, decide_eq_true_eq] at hvalue ⊢
  exact ⟨hvalue.1, hlt⟩

theorem digitValue?_eq_none (h : ¬∃ d, IsDigit radix c d) : digitValue? radix c = none := by
  cases hvalue : digitValue? radix c with
  | none => rfl
  | some d => exact absurd ⟨d, isDigit_of_digitValue? hvalue⟩ h

end Digits

section Values

variable {radix n : Nat}

theorem spells_nil : Spells radix [] n ↔ n = 0 := by
  constructor
  · rintro ⟨digits, hdigits, rfl⟩
    rw [List.reverse_nil, List.forall₂_nil_left_iff] at hdigits
    rw [hdigits, Nat.ofDigits_nil]
  · rintro rfl
    exact ⟨[], .nil, rfl⟩

theorem spells_concat {text : List Char} {c : Char} :
    Spells radix (text ++ [c]) n ↔
      ∃ m d, Spells radix text m ∧ IsDigit radix c d ∧ n = radix * m + d := by
  constructor
  · rintro ⟨digits, hdigits, rfl⟩
    rw [List.reverse_concat, List.forall₂_cons_left_iff] at hdigits
    obtain ⟨d, rest, hd, hrest, rfl⟩ := hdigits
    refine ⟨_, d, ⟨rest, hrest, rfl⟩, hd, ?_⟩
    rw [Nat.ofDigits_cons, Nat.add_comm]
  · rintro ⟨_, d, ⟨digits, hdigits, rfl⟩, hd, rfl⟩
    refine ⟨d :: digits, ?_, ?_⟩
    · rw [List.reverse_concat]
      exact .cons hd hdigits
    · rw [Nat.ofDigits_cons, Nat.add_comm]

theorem Spells.of_zip {text : List Char} {digits : List Nat}
    (hlength : text.reverse.length = digits.length)
    (h : ∀ p ∈ text.reverse.zip digits, IsDigit radix p.1 p.2) :
    Spells radix text (Nat.ofDigits radix digits) :=
  ⟨digits, List.forall₂_iff_zip.2 ⟨hlength, fun hmem => h _ hmem⟩, rfl⟩

end Values

section Outcomes

variable {ε α β : Type} {first : Except ε α} {next : α → Except ε β}

theorem bind_eq_ok_iff {value : β} :
    first >>= next = .ok value ↔ ∃ a, first = .ok a ∧ next a = .ok value := by
  cases first with
  | error cause => simp [bind, Except.bind]
  | ok a => simp [bind, Except.bind]

theorem bind_eq_error_iff {cause : ε} :
    first >>= next = .error cause ↔
      first = .error cause ∨ ∃ a, first = .ok a ∧ next a = .error cause := by
  cases first with
  | error other => simp [bind, Except.bind]
  | ok a => simp [bind, Except.bind]

end Outcomes

namespace UInt256

/-- The digits at the start of the text spell an integer that does not fit. -/
def Overflows (radix : Nat) (text : List Char) : Prop :=
  ∃ start n, start <+: text ∧ Spells radix start n ∧ size ≤ n

def readDigits (radix : Nat) (text : List Char) : Except ArithmeticError UInt256 :=
  text.foldlM (appendDigit radix) zero

theorem readDigits_nil (radix : Nat) : readDigits radix [] = .ok zero := rfl

theorem readDigits_concat (radix : Nat) (text : List Char) (c : Char) :
    readDigits radix (text ++ [c]) = readDigits radix text >>= (appendDigit radix · c) := by
  simp only [readDigits, List.foldlM_append, List.foldlM_cons, List.foldlM_nil, bind_pure]

section Reader

variable {radix : Nat} {acc : UInt256} {c : Char} {text : List Char}

theorem overflows_concat :
    Overflows radix (text ++ [c]) ↔ Overflows radix text ∨
      ∃ acc : UInt256, Spells radix text acc.toNat ∧
        ∃ d, IsDigit radix c d ∧ size ≤ radix * acc.toNat + d := by
  constructor
  · rintro ⟨start, n, hstart, hn, hle⟩
    rcases List.prefix_concat_iff.1 hstart with rfl | hstart
    · obtain ⟨m, d, hm, hd, rfl⟩ := spells_concat.1 hn
      by_cases hlt : m < size
      · refine .inr ⟨.ofNat m, ?_, d, hd, ?_⟩ <;> rwa [toNat_ofNat hlt]
      · exact .inl ⟨text, m, List.prefix_rfl, hm, Nat.le_of_not_lt hlt⟩
    · exact .inl ⟨start, n, hstart, hn, hle⟩
  · rintro (⟨start, n, hstart, hn, hle⟩ | ⟨acc, hacc, d, hd, hle⟩)
    · exact ⟨start, n, hstart.trans (List.prefix_append _ _), hn, hle⟩
    · exact ⟨_, _, List.prefix_rfl, spells_concat.2 ⟨_, d, hacc, hd, rfl⟩, hle⟩

variable (hradix : radix ≤ 36)

include hradix

theorem appendDigit_of_isDigit (acc : UInt256) {d : Nat} (hd : IsDigit radix c d) :
    appendDigit radix acc c =
      if radix * acc.toNat + d < size then .ok (.ofNat (radix * acc.toNat + d))
      else .error (.overflow byteCount) := by
  have hexact := mulAddLimb_exact acc (.ofNat radix) (.ofNat d)
  have hlt := toNat_lt (acc.mulAddLimb (.ofNat radix) (.ofNat d)).1
  have hsmall {n : Nat} (hn : n ≤ radix) : (UInt64.ofNat n).toNat = n :=
    UInt64.toNat_ofNat_of_lt' (Nat.lt_of_le_of_lt (hn.trans hradix) (by decide))
  rw [hsmall (le_refl _), hsmall hd.1.le, Nat.mul_comm acc.toNat] at hexact
  rw [appendDigit, digitValue?_of_isDigit hd, ← hexact]
  dsimp only
  generalize acc.mulAddLimb (.ofNat radix) (.ofNat d) = result at hlt ⊢
  obtain ⟨next, carry⟩ := result
  by_cases hcarry : carry = 0
  · subst hcarry
    have hnext : UInt256.ofNat next.toNat = next := toNat_inj.1 (toNat_ofNat hlt)
    simp [hnext, hlt]
  · have hpos : 0 < carry.toNat := by
      rw [← UInt64.toNat_inj] at hcarry
      exact Nat.pos_of_ne_zero hcarry
    have hle : size ≤ next.toNat + size * carry.toNat :=
      Nat.le_add_left_of_le (Nat.le_mul_of_pos_right size hpos)
    simp [hcarry, Nat.not_lt.2 hle]

theorem appendDigit_cases (acc : UInt256) (c : Char) :
    (∃ d, IsDigit radix c d ∧ radix * acc.toNat + d < size ∧
      appendDigit radix acc c = .ok (.ofNat (radix * acc.toNat + d))) ∨
    (∃ d, IsDigit radix c d ∧ size ≤ radix * acc.toNat + d ∧
      appendDigit radix acc c = .error (.overflow byteCount)) ∨
    appendDigit radix acc c = .error .invalidNumeral := by
  by_cases hc : ∃ d, IsDigit radix c d
  · obtain ⟨d, hd⟩ := hc
    have happend := appendDigit_of_isDigit hradix acc hd
    split at happend
    · next hlt => exact .inl ⟨d, hd, hlt, happend⟩
    · next hle => exact .inr (.inl ⟨d, hd, Nat.le_of_not_lt hle, happend⟩)
  · right; right
    rw [appendDigit, digitValue?_eq_none hc]

theorem appendDigit_eq_ok_iff {value : UInt256} :
    appendDigit radix acc c = .ok value ↔
      ∃ d, IsDigit radix c d ∧ value.toNat = radix * acc.toNat + d := by
  constructor
  · intro h
    rcases appendDigit_cases hradix acc c with ⟨d, hd, hlt, happend⟩ | ⟨d, -, -, happend⟩ | happend
    · rw [happend] at h
      exact ⟨d, hd, Except.ok.inj h ▸ toNat_ofNat hlt⟩
    · cases happend.symm.trans h
    · cases happend.symm.trans h
  · rintro ⟨d, hd, hvalue⟩
    have hlt := value.toNat_lt
    rw [appendDigit_of_isDigit hradix acc hd, ← hvalue, if_pos hlt, toNat_inj.1 (toNat_ofNat hlt)]

theorem appendDigit_eq_overflow_iff :
    appendDigit radix acc c = .error (.overflow byteCount) ↔
      ∃ d, IsDigit radix c d ∧ size ≤ radix * acc.toNat + d := by
  constructor
  · intro h
    rcases appendDigit_cases hradix acc c with ⟨d, -, -, happend⟩ | ⟨d, hd, hle, -⟩ | happend
    · cases happend.symm.trans h
    · exact ⟨d, hd, hle⟩
    · cases happend.symm.trans h
  · rintro ⟨d, hd, hle⟩
    rw [appendDigit_of_isDigit hradix acc hd, if_neg (Nat.not_lt.2 hle)]

theorem eq_of_appendDigit_eq_error {cause : ArithmeticError}
    (h : appendDigit radix acc c = .error cause) :
    cause = .overflow byteCount ∨ cause = .invalidNumeral := by
  rcases appendDigit_cases hradix acc c with ⟨d, -, -, happend⟩ | ⟨d, -, -, happend⟩ | happend
  · cases happend.symm.trans h
  · exact .inl (Except.error.inj (h.symm.trans happend))
  · exact .inr (Except.error.inj (h.symm.trans happend))

theorem readDigits_eq_ok_iff (hpos : 0 < radix) {value : UInt256} :
    readDigits radix text = .ok value ↔ Spells radix text value.toNat := by
  induction text using List.reverseRecOn generalizing value with
  | nil =>
      rw [readDigits_nil, Except.ok.injEq, spells_nil, ← toNat_zero, toNat_inj, eq_comm]
  | append_singleton text c ih =>
      rw [readDigits_concat, bind_eq_ok_iff, spells_concat]
      constructor
      · rintro ⟨acc, hacc, happend⟩
        obtain ⟨d, hd, hvalue⟩ := (appendDigit_eq_ok_iff hradix).1 happend
        exact ⟨acc.toNat, d, ih.1 hacc, hd, hvalue⟩
      · rintro ⟨m, d, hm, hd, hvalue⟩
        have hlt : m < size := by
          have := value.toNat_lt
          have := Nat.le_mul_of_pos_left m hpos
          omega
        rw [← toNat_ofNat hlt] at hm hvalue
        exact ⟨.ofNat m, ih.2 hm, (appendDigit_eq_ok_iff hradix).2 ⟨d, hd, hvalue⟩⟩

theorem readDigits_eq_overflow_iff (hpos : 0 < radix) :
    readDigits radix text = .error (.overflow byteCount) ↔ Overflows radix text := by
  induction text using List.reverseRecOn with
  | nil =>
      constructor
      · intro h
        cases h
      · rintro ⟨start, n, hstart, hn, hle⟩
        rw [List.prefix_nil.1 hstart, spells_nil] at hn
        simp [hn, size] at hle
  | append_singleton text c ih =>
      rw [readDigits_concat, bind_eq_error_iff, overflows_concat, ih]
      simp only [readDigits_eq_ok_iff hradix hpos, appendDigit_eq_overflow_iff hradix]

theorem eq_of_readDigits_eq_error {cause : ArithmeticError}
    (h : readDigits radix text = .error cause) :
    cause = .overflow byteCount ∨ cause = .invalidNumeral := by
  induction text using List.reverseRecOn with
  | nil => cases h
  | append_singleton text c ih =>
      rw [readDigits_concat, bind_eq_error_iff] at h
      rcases h with h | ⟨acc, -, h⟩
      · exact ih h
      · exact eq_of_appendDigit_eq_error hradix h

end Reader

section Texts

variable {text : String} {radix : Nat} (hlow : 2 ≤ radix) (hhigh : radix ≤ 36)

include hlow hhigh

theorem ofNumeral_eq_readDigits (htext : text ≠ "") :
    ofNumeral text radix = readDigits radix text.toList := by
  rw [ofNumeral, if_neg (by omega), if_neg (by rwa [String.isEmpty_iff]), readDigits]

theorem ofNumeral_empty : ofNumeral "" radix = .error .invalidNumeral := by
  rw [ofNumeral, if_neg (by omega), if_pos (String.isEmpty_iff.2 rfl)]

theorem ofNumeral_cases (text : String) :
    (∃ value, ofNumeral text radix = .ok value) ∨
      ofNumeral text radix = .error (.overflow byteCount) ∨
      ofNumeral text radix = .error .invalidNumeral := by
  by_cases htext : text = ""
  · subst htext
    exact .inr (.inr (ofNumeral_empty hlow hhigh))
  · rw [ofNumeral_eq_readDigits hlow hhigh htext]
    cases h : readDigits radix text.toList with
    | ok value => exact .inl ⟨value, rfl⟩
    | error cause => rcases eq_of_readDigits_eq_error hhigh h with rfl | rfl <;> simp

theorem ofNumeral_eq_ok_iff {value : UInt256} :
    ofNumeral text radix = .ok value ↔ text ≠ "" ∧ Spells radix text.toList value.toNat := by
  by_cases htext : text = ""
  · subst htext
    simp [ofNumeral_empty hlow hhigh]
  · rw [ofNumeral_eq_readDigits hlow hhigh htext, readDigits_eq_ok_iff hhigh (by omega)]
    simp [htext]

theorem ofNumeral_eq_overflow_iff :
    ofNumeral text radix = .error (.overflow byteCount) ↔ Overflows radix text.toList := by
  by_cases htext : text = ""
  · subst htext
    rw [ofNumeral_empty hlow hhigh, String.toList_empty,
      ← readDigits_eq_overflow_iff hhigh (by omega)]
    simp [readDigits_nil]
  · rw [ofNumeral_eq_readDigits hlow hhigh htext, readDigits_eq_overflow_iff hhigh (by omega)]

theorem ofNumeral_eq_invalidNumeral_iff :
    ofNumeral text radix = .error .invalidNumeral ↔
      ¬(text ≠ "" ∧ ∃ n < size, Spells radix text.toList n) ∧ ¬Overflows radix text.toList := by
  rw [← ofNumeral_eq_overflow_iff hlow hhigh]
  constructor
  · intro h
    refine ⟨?_, by simp [h]⟩
    rintro ⟨htext, n, hn, hspells⟩
    rw [← toNat_ofNat hn] at hspells
    cases h.symm.trans ((ofNumeral_eq_ok_iff hlow hhigh).2 ⟨htext, hspells⟩)
  · rintro ⟨hnone, hfits⟩
    rcases ofNumeral_cases hlow hhigh text with ⟨value, hread⟩ | hread | hread
    · obtain ⟨htext, hspells⟩ := (ofNumeral_eq_ok_iff hlow hhigh).1 hread
      exact absurd ⟨htext, _, value.toNat_lt, hspells⟩ hnone
    · exact absurd hread hfits
    · exact hread

end Texts

theorem ofNumeral_eq_invalidRadix_iff {text : String} {radix : Nat} :
    ofNumeral text radix = .error (.invalidRadix radix) ↔ ¬(2 ≤ radix ∧ radix ≤ 36) := by
  constructor
  · rintro h ⟨hlow, hhigh⟩
    rcases ofNumeral_cases hlow hhigh text with ⟨value, hread⟩ | hread | hread
    all_goals cases hread.symm.trans h
  · intro h
    rw [ofNumeral, if_pos (by omega)]

/-- A base outside 2 to 36 is refused whatever the text. In any other the numerals of the integers
below `size` are read as these integers. Of the remaining texts those that begin with the digits of
a larger integer overflow, and the others are invalid. -/
theorem ofNumeral_reads_by_value (text : String) (radix : Nat) :
    (ofNumeral text radix = .error (.invalidRadix radix) ↔ ¬(2 ≤ radix ∧ radix ≤ 36)) ∧
    (2 ≤ radix → radix ≤ 36 →
      (∀ value, ofNumeral text radix = .ok value ↔
        text ≠ "" ∧ Spells radix text.toList value.toNat) ∧
      (ofNumeral text radix = .error (.overflow 32) ↔ Overflows radix text.toList) ∧
      (ofNumeral text radix = .error .invalidNumeral ↔
        ¬(text ≠ "" ∧ ∃ n < size, Spells radix text.toList n) ∧
          ¬Overflows radix text.toList)) := by
  refine ⟨ofNumeral_eq_invalidRadix_iff, fun hlow hhigh => ⟨fun value => ?_, ?_, ?_⟩⟩
  · exact ofNumeral_eq_ok_iff hlow hhigh
  · exact ofNumeral_eq_overflow_iff hlow hhigh
  · exact ofNumeral_eq_invalidNumeral_iff hlow hhigh

theorem ofNumeral_in_base_36 :
    2 ≤ 36 ∧ 36 ≤ 36 ∧ ofNumeral "00zZ" 36 = .ok (.ofLimb 1295) ∧
      ofNumeral "zzzzzzzzzzzzzzzzzzzzzzzzzzzzzzzzzzzzzzzzzzzzzzzzzz!" 36 =
        .error (.overflow 32) :=
  have hspells : Spells 36 "00zZ".toList (Nat.ofDigits 36 [35, 35, 0, 0]) :=
    .of_zip (by decide) (by decide)
  have hlarge : Spells 36 (List.replicate 50 'z') (Nat.ofDigits 36 (List.replicate 50 35)) :=
    .of_zip (by decide) (by decide)
  ⟨by decide, by decide,
    (((ofNumeral_reads_by_value _ 36).2 (by decide) (by decide)).1 (.ofLimb 1295)).2
      ⟨by decide, hspells⟩,
    ((ofNumeral_reads_by_value _ 36).2 (by decide) (by decide)).2.1.2
      ⟨_, _, ⟨['!'], rfl⟩, hlarge, by decide⟩⟩

end UInt256

end PallasVesta
