import Mathlib.Data.List.DropRight
import PallasVesta.Proofs.ByteEncoding

namespace PallasVesta

theorem littleEndian_eq_zero_iff {bytes : List UInt8} :
    littleEndian bytes = 0 ↔ ∀ byte ∈ bytes, byte = 0 := by
  induction bytes with
  | nil => exact ⟨fun _ => List.forall_mem_nil _, fun _ => rfl⟩
  | cons byte bytes ih =>
      rw [littleEndian_cons, List.forall_mem_cons, ← ih, ← UInt8.toNat_inj, UInt8.toNat_zero]
      omega

theorem littleEndian_append_zeros (bytes : List UInt8) {zeros : List UInt8}
    (h : ∀ byte ∈ zeros, byte = 0) : littleEndian (bytes ++ zeros) = littleEndian bytes := by
  rw [littleEndian_append, littleEndian_eq_zero_iff.2 h, Nat.mul_zero, Nat.add_zero]

/-- A list spells an integer of `width` bytes exactly if the bytes past that width are zeros. -/
theorem littleEndian_lt_iff (bytes : List UInt8) (width : Nat) :
    littleEndian bytes < 256 ^ width ↔ ∀ byte ∈ bytes.drop width, byte = 0 := by
  rw [← littleEndian_eq_zero_iff]
  by_cases hle : width ≤ bytes.length
  · have hlow := littleEndian_lt (bytes.take width)
    rw [List.length_take_of_le hle] at hlow
    rw [littleEndian_take_drop hle]
    constructor
    · intro hlt
      by_contra hne
      have hhigh := Nat.mul_le_mul_left (256 ^ width) (Nat.one_le_iff_ne_zero.2 hne)
      omega
    · intro hzero
      rwa [hzero, Nat.mul_zero, Nat.add_zero]
  · have hlength := Nat.le_of_not_le hle
    have hlt := littleEndian_lt bytes
    have hpow : 256 ^ bytes.length ≤ 256 ^ width := Nat.pow_le_pow_right (by decide) hlength
    rw [List.drop_eq_nil_of_le hlength]
    exact ⟨fun _ => rfl, fun _ => Nat.lt_of_lt_of_le hlt hpow⟩

theorem length_le_iff_of_getLast?_ne {bytes : List UInt8} (hlast : bytes.getLast? ≠ some 0)
    (width : Nat) : bytes.length ≤ width ↔ littleEndian bytes < 256 ^ width := by
  rw [littleEndian_lt_iff]
  constructor
  · intro hle
    rw [List.drop_eq_nil_of_le hle]
    exact List.forall_mem_nil _
  · intro hzeros
    by_contra hlt
    have hdrop := List.getLast?_drop (l := bytes) (i := width)
    rw [if_neg hlt] at hdrop
    cases hend : bytes.getLast? with
    | none =>
        rw [List.getLast?_eq_none_iff.1 hend] at hlt
        exact hlt (Nat.zero_le _)
    | some byte =>
        rw [hend] at hdrop hlast
        exact hlast (congrArg some (hzeros byte (List.mem_of_getLast? hdrop)))

theorem toNat_getD (bytes : List UInt8) (i : Nat) :
    (bytes.getD i 0).toNat = littleEndian bytes / 256 ^ i % 256 := by
  induction bytes generalizing i with
  | nil =>
      rw [List.getD_nil, littleEndian, List.map_nil, Nat.ofDigits_nil, Nat.zero_div]
      rfl
  | cons byte bytes ih =>
      have hbyte := byte.toNat_lt
      rw [littleEndian_cons]
      cases i with
      | zero =>
          rw [List.getD_cons_zero, pow_zero, Nat.div_one]
          omega
      | succ i =>
          have hdiv : (byte.toNat + 256 * littleEndian bytes) / 256 = littleEndian bytes := by omega
          rw [List.getD_cons_succ, ih, pow_succ', ← Nat.div_div_eq_div_mul, hdiv]

namespace UInt256

theorem toNat_ofBytes_getD (bytes : List UInt8) :
    (ofBytes (Vector.ofFn fun index => bytes.getD index 0)).toNat =
      littleEndian bytes % 256 ^ 32 := by
  have hlist : (Vector.ofFn fun index : Fin 32 => bytes.getD index 0).toList =
      (List.range 32).map fun index => bytes.getD index 0 := by
    rw [Vector.toList_ofFn]
    rfl
  rw [toNat_ofBytes, hlist, littleEndian_map_range fun i _ => toNat_getD bytes i]

theorem ofByteList_of_zeros {bytes : List UInt8} (h : ∀ byte ∈ bytes.drop 32, byte = 0) :
    ∃ a, ofByteList bytes = .ok a ∧ a.toNat = littleEndian bytes := by
  have hnone : (bytes.drop byteCount).any (· != 0) = false := by
    rw [List.any_eq_false]
    intro byte hbyte
    rw [bne_iff_ne, not_not]
    exact h byte hbyte
  refine ⟨_, by rw [ofByteList, hnone, if_neg Bool.false_ne_true], ?_⟩
  rw [toNat_ofBytes_getD, Nat.mod_eq_of_lt ((littleEndian_lt_iff bytes 32).2 h)]

theorem ofByteList_of_not_zeros {bytes : List UInt8} (h : ¬∀ byte ∈ bytes.drop 32, byte = 0) :
    ofByteList bytes = .error (.overflow 32) := by
  have hsome : (bytes.drop byteCount).any (· != 0) = true := by
    push Not at h
    obtain ⟨byte, hbyte, hne⟩ := h
    exact List.any_eq_true.2 ⟨byte, hbyte, bne_iff_ne.2 hne⟩
  rw [ofByteList, if_pos hsome]
  rfl

theorem ofByteList_eq_ok_iff {bytes : List UInt8} {a : UInt256} :
    ofByteList bytes = .ok a ↔ littleEndian bytes = a.toNat := by
  by_cases hzeros : ∀ byte ∈ bytes.drop 32, byte = 0
  · obtain ⟨b, hok, hvalue⟩ := ofByteList_of_zeros hzeros
    rw [hok, ← hvalue, toNat_inj, Except.ok.injEq]
  · rw [ofByteList_of_not_zeros hzeros]
    rw [← littleEndian_lt_iff] at hzeros
    constructor
    · exact nofun
    · intro hvalue
      have hlt : a.toNat < 256 ^ 32 := a.toNat_lt
      rw [hvalue] at hzeros
      exact absurd hlt hzeros

theorem littleEndian_minimalBytes (a : UInt256) : littleEndian a.minimalBytes = a.toNat := by
  have hsplit : a.minimalBytes ++ a.toBytes.toList.rtakeWhile (· == 0) = a.toBytes.toList :=
    List.rdropWhile_append_rtakeWhile
  have hzeros : ∀ byte ∈ a.toBytes.toList.rtakeWhile (· == 0), byte = 0 := by
    intro byte hbyte
    have hzero := List.mem_rtakeWhile_imp hbyte
    exact eq_of_beq hzero
  rw [← littleEndian_toBytes, ← hsplit, littleEndian_append_zeros _ hzeros]

theorem getLast?_minimalBytes_ne (a : UInt256) : a.minimalBytes.getLast? ≠ some 0 := by
  intro hlast
  obtain ⟨hne, hzero⟩ := List.mem_getLast?_eq_getLast hlast
  have hnot := List.rdropWhile_last_not (· == 0) a.toBytes.toList hne
  exact hnot (beq_iff_eq.2 hzero.symm)

theorem length_minimalBytes_le_iff (a : UInt256) (width : Nat) :
    a.minimalBytes.length ≤ width ↔ a.toNat < 256 ^ width := by
  rw [length_le_iff_of_getLast?_ne a.getLast?_minimalBytes_ne, littleEndian_minimalBytes]

theorem minimalBytes_eq_nil_iff (a : UInt256) : a.minimalBytes = [] ↔ a = zero := by
  have hlength := a.length_minimalBytes_le_iff 0
  rw [pow_zero, Nat.lt_one_iff, Nat.le_zero, List.length_eq_zero_iff] at hlength
  rw [hlength, ← toNat_inj, toNat_zero]

theorem length_minimalBytes_le {a : UInt256} {bytes : List UInt8}
    (h : littleEndian bytes = a.toNat) : a.minimalBytes.length ≤ bytes.length := by
  rw [length_minimalBytes_le_iff, ← h]
  exact littleEndian_lt bytes

theorem toByteList_of_le {a : UInt256} {width : Nat} (h : 256 ^ width ≤ a.toNat) :
    a.toByteList (some width) = .error (.overflow width) := by
  have hlt : width < a.minimalBytes.length := by
    rwa [← Nat.not_le, length_minimalBytes_le_iff, Nat.not_lt]
  rw [toByteList]
  exact if_pos hlt

theorem toByteList_of_lt {a : UInt256} {width : Nat} (h : a.toNat < 256 ^ width) :
    ∃ bytes, a.toByteList (some width) = .ok bytes ∧ bytes.length = width ∧
      littleEndian bytes = a.toNat := by
  have hle : a.minimalBytes.length ≤ width := (a.length_minimalBytes_le_iff width).2 h
  have hok : a.toByteList (some width) =
      .ok (a.minimalBytes ++ List.replicate (width - a.minimalBytes.length) 0) := by
    rw [toByteList]
    exact if_neg (Nat.not_lt.2 hle)
  refine ⟨_, hok, ?_, ?_⟩
  · rw [List.length_append, List.length_replicate, Nat.add_sub_cancel' hle]
  · rw [littleEndian_append_zeros _ fun byte => List.eq_of_mem_replicate, littleEndian_minimalBytes]

theorem toByteList_eq_error_iff (a : UInt256) (length : Option Nat) (width : Nat) :
    a.toByteList length = .error (.overflow width) ↔
      length = some width ∧ 256 ^ width ≤ a.toNat := by
  cases length with
  | none => exact ⟨nofun, nofun⟩
  | some given =>
      rw [Option.some.injEq]
      by_cases hle : 256 ^ given ≤ a.toNat
      · rw [toByteList_of_le hle, Except.error.injEq, ArithmeticError.overflow.injEq]
        exact ⟨fun hgiven => ⟨hgiven, hgiven ▸ hle⟩, fun h => h.1⟩
      · obtain ⟨bytes, hok, -⟩ := toByteList_of_lt (Nat.lt_of_not_le hle)
        rw [hok]
        exact ⟨nofun, fun ⟨hgiven, h⟩ => absurd (hgiven ▸ h) hle⟩

theorem toByteList_of_ofByteList {bytes : List UInt8} {a : UInt256} (h : ofByteList bytes = .ok a) :
    a.toByteList (some bytes.length) = .ok bytes := by
  have hvalue := ofByteList_eq_ok_iff.1 h
  have hlt : a.toNat < 256 ^ bytes.length := hvalue ▸ littleEndian_lt bytes
  obtain ⟨written, hok, hlength, hsame⟩ := toByteList_of_lt hlt
  rw [hok, (littleEndian_inj hlength).1 (hsame.trans hvalue.symm)]

/-- A list of any length is read exactly if only zeros follow its 32nd byte, and is written back at
that length. An integer is written at every length that holds it and at the shortest one of all,
and what is written reads as the integer again. -/
theorem byte_lists_round_trip :
    (∀ bytes : List UInt8,
      ((∃ a, ofByteList bytes = .ok a) ↔ ∀ byte ∈ bytes.drop 32, byte = 0) ∧
      (ofByteList bytes = .error (.overflow 32) ↔ ¬∀ byte ∈ bytes.drop 32, byte = 0) ∧
      ∀ a, ofByteList bytes = .ok a →
        a.toNat = littleEndian bytes ∧ a.toByteList (some bytes.length) = .ok bytes) ∧
    ∀ a : UInt256,
      (∀ (length : Option Nat) (width : Nat), a.toByteList length = .error (.overflow width) ↔
        length = some width ∧ 256 ^ width ≤ a.toNat) ∧
      (∃ bytes, a.toByteList none = .ok bytes ∧ ofByteList bytes = .ok a ∧
        (∀ other, ofByteList other = .ok a → bytes.length ≤ other.length) ∧
        (bytes = [] ↔ a = zero) ∧ bytes.getLast? ≠ some 0) ∧
      ∀ width, a.toNat < 256 ^ width → ∃ bytes, a.toByteList (some width) = .ok bytes ∧
        ofByteList bytes = .ok a ∧ bytes.length = width := by
  refine ⟨fun bytes => ⟨?_, ?_, ?_⟩, fun a => ⟨a.toByteList_eq_error_iff, ?_, ?_⟩⟩
  · constructor
    · rintro ⟨a, hok⟩
      rw [← littleEndian_lt_iff, ofByteList_eq_ok_iff.1 hok]
      exact a.toNat_lt
    · intro hzeros
      obtain ⟨a, hok, -⟩ := ofByteList_of_zeros hzeros
      exact ⟨a, hok⟩
  · constructor
    · intro herror hzeros
      obtain ⟨a, hok, -⟩ := ofByteList_of_zeros hzeros
      rw [hok] at herror
      nomatch herror
    · exact ofByteList_of_not_zeros
  · intro a hok
    exact ⟨(ofByteList_eq_ok_iff.1 hok).symm, toByteList_of_ofByteList hok⟩
  · have hread := ofByteList_eq_ok_iff.2 a.littleEndian_minimalBytes
    refine ⟨_, rfl, hread, fun other hother => ?_, a.minimalBytes_eq_nil_iff,
      a.getLast?_minimalBytes_ne⟩
    exact length_minimalBytes_le (ofByteList_eq_ok_iff.1 hother)
  · intro width hlt
    obtain ⟨bytes, hok, hlength, hvalue⟩ := toByteList_of_lt hlt
    exact ⟨bytes, hok, ofByteList_eq_ok_iff.2 hvalue, hlength⟩

theorem byte_lists_at_full_width :
    (ofByteList (List.replicate 32 255 ++ [0]) = .ok ⟨-1, -1, -1, -1⟩ ∧
      (⟨-1, -1, -1, -1⟩ : UInt256).toByteList (some 33) = .ok (List.replicate 32 255 ++ [0])) ∧
      (ofLimb 0xffff).toNat < 256 ^ 2 ∧
      ∃ bytes, (ofLimb 0xffff).toByteList (some 2) = .ok bytes ∧
        ofByteList bytes = .ok (ofLimb 0xffff) ∧ bytes.length = 2 :=
  have hok : ofByteList (List.replicate 32 255 ++ [0]) = .ok ⟨-1, -1, -1, -1⟩ := by decide
  have hlt : (ofLimb 0xffff).toNat < 256 ^ 2 := by decide
  ⟨⟨hok, ((byte_lists_round_trip.1 _).2.2 _ hok).2⟩, hlt,
    (byte_lists_round_trip.2 (ofLimb 0xffff)).2.2 2 hlt⟩

end UInt256

end PallasVesta
