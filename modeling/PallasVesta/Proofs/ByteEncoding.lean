import Mathlib.Data.Nat.Digits.Defs
import PallasVesta.Proofs.Canonicity

namespace PallasVesta

/-- The integer that the bytes spell, least significant first. -/
def littleEndian (bytes : List UInt8) : Nat := Nat.ofDigits 256 (bytes.map UInt8.toNat)

theorem littleEndian_cons (byte : UInt8) (bytes : List UInt8) :
    littleEndian (byte :: bytes) = byte.toNat + 256 * littleEndian bytes :=
  Nat.ofDigits_cons

theorem littleEndian_append (bytes rest : List UInt8) :
    littleEndian (bytes ++ rest) = littleEndian bytes + 256 ^ bytes.length * littleEndian rest := by
  rw [littleEndian, List.map_append, Nat.ofDigits_append, List.length_map, littleEndian,
    littleEndian]

theorem littleEndian_take_drop {bytes : List UInt8} {n : Nat} (h : n ≤ bytes.length) :
    littleEndian bytes =
      littleEndian (bytes.take n) + 256 ^ n * littleEndian (bytes.drop n) := by
  have happend := littleEndian_append (bytes.take n) (bytes.drop n)
  rwa [List.take_append_drop, List.length_take_of_le h] at happend

theorem littleEndian_lt (bytes : List UInt8) : littleEndian bytes < 256 ^ bytes.length := by
  rw [← bytes.length_map UInt8.toNat]
  apply Nat.ofDigits_lt_base_pow_length (by decide)
  intro digit hdigit
  obtain ⟨byte, -, rfl⟩ := List.mem_map.1 hdigit
  exact byte.toNat_lt

theorem littleEndian_inj {bytes other : List UInt8} (hlength : bytes.length = other.length) :
    littleEndian bytes = littleEndian other ↔ bytes = other := by
  constructor
  · intro h
    induction bytes generalizing other with
    | nil => exact (List.length_eq_zero_iff.1 hlength.symm).symm
    | cons byte bytes ih =>
        cases other with
        | nil => nomatch hlength
        | cons first rest =>
            have hbyte := byte.toNat_lt
            have hfirst := first.toNat_lt
            rw [littleEndian_cons, littleEndian_cons] at h
            have hhead : byte = first := UInt8.toNat_inj.1 (by omega)
            rw [hhead, ih (Nat.succ.inj hlength) (by omega)]
  · exact congrArg littleEndian

/-- The digits of an integer in base 256 spell it up to their number. -/
theorem littleEndian_map_range {n : Nat} {digit : Nat → UInt8} {width : Nat}
    (h : ∀ i < width, (digit i).toNat = n / 256 ^ i % 256) :
    littleEndian ((List.range width).map digit) = n % 256 ^ width := by
  induction width with
  | zero => rw [List.range_zero, pow_zero, Nat.mod_one]; rfl
  | succ width ih =>
      rw [List.range_succ, List.map_append, littleEndian_append, List.length_map, List.length_range,
        ih fun i hi => h i (Nat.lt_succ_of_lt hi), List.map_singleton, littleEndian_cons,
        h width (Nat.lt_succ_self width), Nat.mod_pow_succ]
      rfl

theorem exists_toList_eq {bytes : List UInt8} (h : bytes.length = 32) :
    ∃ array : Vector UInt8 32, array.toList = bytes :=
  ⟨⟨bytes.toArray, h⟩, rfl⟩

theorem Limb.toNat_ofBytes {bytes : List UInt8} (h : bytes.length ≤ 8) :
    (Limb.ofBytes bytes).toNat = littleEndian bytes := by
  induction bytes with
  | nil => rfl
  | cons byte bytes ih =>
      have hlt := littleEndian_lt (byte :: bytes)
      have hpow : 256 ^ (byte :: bytes).length ≤ 2 ^ 64 := Nat.pow_le_pow_right (by decide) h
      rw [littleEndian_cons] at hlt ⊢
      have hbase : (256 : UInt64).toNat = 256 := rfl
      rw [ofBytes, List.foldr_cons, ← ofBytes, UInt64.toNat_add, UInt64.toNat_mul,
        ih (Nat.le_of_succ_le h), UInt8.toNat_toUInt64, hbase]
      omega

namespace UInt256

theorem toNat_limb (a : UInt256) {i : Nat} (hi : i < 4) :
    (a.limb i).toNat = a.toNat / Limb.size ^ i % Limb.size := by
  have h0 := a.limb0.toNat_lt
  have h1 := a.limb1.toNat_lt
  have h2 := a.limb2.toNat_lt
  have h3 := a.limb3.toNat_lt
  match i with
  | 0 | 1 | 2 | 3 => simp only [limb, toNat, Limb.size]; omega

theorem toNat_byte (a : UInt256) {i : Nat} (hi : i < 32) :
    (a.byte i).toNat = a.toNat / 256 ^ i % 256 := by
  have hshift : (8 * (i % 8)).toUInt64.toNat % 64 = 8 * (i % 8) :=
    Limb.toNat_toUInt64_mod (by omega)
  have hsize : Limb.size = 256 ^ (i % 8) * 256 ^ (8 - i % 8) := by
    rw [← pow_add, Nat.add_sub_cancel' (by omega)]
    rfl
  have hindex : Limb.size ^ (i / 8) * 256 ^ (i % 8) = 256 ^ i := by
    rw [show Limb.size = 256 ^ 8 from rfl, ← pow_mul, ← pow_add, Nat.div_add_mod]
  -- The byte lies within one limb, so cutting the limb off first loses none of its bits.
  have hcut (n : Nat) : n % Limb.size / 256 ^ (i % 8) = n / 256 ^ (i % 8) % 256 ^ (8 - i % 8) := by
    rw [hsize, Nat.mod_mul_right_div_self]
  rw [byte, UInt64.toNat_toUInt8, UInt64.toNat_shiftRight, hshift, Nat.shiftRight_eq_div_pow,
    toNat_limb a (by omega), pow_mul]
  calc a.toNat / Limb.size ^ (i / 8) % Limb.size / 256 ^ (i % 8) % 256
      = a.toNat / Limb.size ^ (i / 8) / 256 ^ (i % 8) % 256 ^ (8 - i % 8) % 256 := by rw [hcut]
    _ = a.toNat / 256 ^ i % 256 := by
        rw [Nat.mod_mod_of_dvd _ (dvd_pow_self 256 (by omega)), Nat.div_div_eq_div_mul, hindex]

theorem toList_toBytes (a : UInt256) : a.toBytes.toList = (List.range 32).map a.byte := by
  rw [toBytes, Vector.toList_ofFn]
  rfl

theorem littleEndian_toBytes (a : UInt256) : littleEndian a.toBytes.toList = a.toNat := by
  rw [toList_toBytes, littleEndian_map_range fun i hi => a.toNat_byte hi]
  exact Nat.mod_eq_of_lt a.toNat_lt

theorem toNat_ofBytes (bytes : Vector UInt8 32) :
    (ofBytes bytes).toNat = littleEndian bytes.toList := by
  have hlength : bytes.toList.length = 32 := bytes.length_toList
  have hlimb (start : Nat) (h : start + 8 ≤ 32) : littleEndian (bytes.toList.drop start) =
      (Limb.ofBytes ((bytes.toList.drop start).take 8)).toNat +
        Limb.size * littleEndian (bytes.toList.drop (start + 8)) := by
    have hle : 8 ≤ (bytes.toList.drop start).length := by
      rw [List.length_drop]
      omega
    rw [littleEndian_take_drop hle, Limb.toNat_ofBytes (List.length_take_le 8 _), List.drop_drop]
    rfl
  have h0 := hlimb 0 (by decide)
  have h8 := hlimb 8 (by decide)
  have h16 := hlimb 16 (by decide)
  have h24 : (Limb.ofBytes (bytes.toList.drop 24)).toNat = littleEndian (bytes.toList.drop 24) :=
    Limb.toNat_ofBytes (by rw [List.length_drop, hlength])
  rw [List.drop_zero] at h0
  rw [ofBytes, toNat, h24, ← h16, ← h8, ← h0]

theorem ofBytes_toBytes (a : UInt256) : ofBytes a.toBytes = a := by
  rw [← toNat_inj, toNat_ofBytes, littleEndian_toBytes]

theorem toBytes_ofBytes (bytes : Vector UInt8 32) : (ofBytes bytes).toBytes = bytes := by
  rw [← Vector.toList_inj, ← littleEndian_inj (by simp), littleEndian_toBytes, toNat_ofBytes]

theorem ofByteList_eq_ok (bytes : Vector UInt8 32) :
    ofByteList bytes.toList = .ok (ofBytes bytes) := by
  have hnone : bytes.toList.drop byteCount = [] :=
    List.drop_eq_nil_of_le (Nat.le_of_eq bytes.length_toList)
  have hsame : (Vector.ofFn fun index : Fin 32 => bytes.toList.getD index 0) = bytes := by
    ext i hi
    simp
  rw [ofByteList, hnone, hsame]
  rfl

end UInt256

namespace FieldElement

variable {M : FieldParams}

theorem ofInteger_of_lt {value : UInt256} (h : value.toNat < M.modulus.toNat) :
    (ofInteger value : Except ArithmeticError (FieldElement M)) = .ok ⟨value⟩ := by
  rw [ofInteger, if_pos (UInt256.lt_iff_toNat_lt.2 h)]

theorem ofInteger_of_le {value : UInt256} (h : M.modulus.toNat ≤ value.toNat) :
    (ofInteger value : Except ArithmeticError (FieldElement M)) = .error .nonCanonical := by
  rw [ofInteger, if_neg (by rwa [UInt256.lt_iff_toNat_lt, Nat.not_lt])]

theorem ofInteger_eq_ok_iff {value : UInt256} {a : FieldElement M} :
    ofInteger value = .ok a ↔ value = a.value ∧ a.IsCanonical := by
  constructor
  · intro h
    have hcanonical := isCanonical_of_ofInteger h
    rw [ofInteger] at h
    split at h
    · exact ⟨congrArg FieldElement.value (Except.ok.inj h), hcanonical⟩
    · cases h
  · rintro ⟨rfl, hcanonical⟩
    exact ofInteger_of_lt hcanonical

theorem ofInteger_eq_nonCanonical_iff {value : UInt256} :
    (ofInteger value : Except ArithmeticError (FieldElement M)) = .error .nonCanonical ↔
      M.modulus.toNat ≤ value.toNat := by
  rw [← Nat.not_lt]
  constructor
  · intro h hlt
    cases (ofInteger_of_lt hlt).symm.trans h
  · intro h
    exact ofInteger_of_le (Nat.le_of_not_lt h)

theorem ofBytes_toBytes {a : FieldElement M} (ha : a.IsCanonical) : ofBytes a.toBytes = .ok a := by
  rw [ofBytes, toBytes, UInt256.ofBytes_toBytes, ofInteger_of_lt ha]

theorem ofByteList_toList (bytes : Vector UInt8 32) :
    (ofByteList bytes.toList : Except ArithmeticError (FieldElement M)) = ofBytes bytes := by
  rw [ofByteList, dif_pos bytes.length_toList]
  rfl

theorem ofByteList_of_length_ne {bytes : List UInt8} (h : bytes.length ≠ 32) :
    (ofByteList bytes : Except ArithmeticError (FieldElement M)) =
      .error (.length 32 bytes.length) := by
  rw [ofByteList, dif_neg h]

theorem exists_ofByteList_of_lt {bytes : List UInt8} (hlength : bytes.length = 32)
    (h : littleEndian bytes < M.modulus.toNat) :
    ∃ a : FieldElement M, ofByteList bytes = .ok a := by
  obtain ⟨bytes, rfl⟩ := exists_toList_eq hlength
  rw [← UInt256.toNat_ofBytes] at h
  exact ⟨⟨.ofBytes bytes⟩, by rw [ofByteList_toList, ofBytes, ofInteger_of_lt h]⟩

theorem ofByteList_of_le {bytes : List UInt8} (hlength : bytes.length = 32)
    (h : M.modulus.toNat ≤ littleEndian bytes) :
    (ofByteList bytes : Except ArithmeticError (FieldElement M)) = .error .nonCanonical := by
  obtain ⟨bytes, rfl⟩ := exists_toList_eq hlength
  rw [← UInt256.toNat_ofBytes] at h
  rw [ofByteList_toList, ofBytes, ofInteger_of_le h]

theorem toList_toBytes_of_ofByteList {bytes : List UInt8} {a : FieldElement M}
    (h : ofByteList bytes = .ok a) : a.toBytes.toList = bytes := by
  rw [ofByteList] at h
  split at h
  · rw [ofBytes, ofInteger] at h
    split at h
    · rw [← Except.ok.inj h, toBytes, UInt256.toBytes_ofBytes]
      rfl
    · cases h
  · cases h

theorem ofByteList_eq_bind {bytes : List UInt8} (hlength : bytes.length = 32) :
    (ofByteList bytes : Except ArithmeticError (FieldElement M)) =
      UInt256.ofByteList bytes >>= ofInteger := by
  obtain ⟨bytes, rfl⟩ := exists_toList_eq hlength
  rw [ofByteList_toList, UInt256.ofByteList_eq_ok]
  rfl

/-- Elements and the encodings below the modulus correspond one to one. Whatever else is read fails,
for its length first and then for its value. -/
theorem byte_encoding_is_bijective (M : FieldParams) :
    (∀ a : FieldElement M, a.IsCanonical →
      ofByteList a.toBytes.toList = .ok a ∧ ofBytes a.toBytes = .ok a) ∧
    ∀ bytes : List UInt8,
      ((∃ a : FieldElement M, ofByteList bytes = .ok a) ↔
        bytes.length = 32 ∧ littleEndian bytes < M.modulus.toNat) ∧
      (∀ a : FieldElement M, ofByteList bytes = .ok a →
        a.IsCanonical ∧ a.toBytes.toList = bytes) ∧
      ((ofByteList bytes : Except ArithmeticError (FieldElement M)) =
          .error (.length 32 bytes.length) ↔ bytes.length ≠ 32) ∧
      ((ofByteList bytes : Except ArithmeticError (FieldElement M)) = .error .nonCanonical ↔
        bytes.length = 32 ∧ M.modulus.toNat ≤ littleEndian bytes) ∧
      (bytes.length = 32 → (ofByteList bytes : Except ArithmeticError (FieldElement M)) =
        UInt256.ofByteList bytes >>= ofInteger) := by
  constructor
  · intro a ha
    rw [ofByteList_toList, ofBytes_toBytes ha]
    exact ⟨rfl, rfl⟩
  · intro bytes
    by_cases hlength : bytes.length = 32
    · by_cases hlt : littleEndian bytes < M.modulus.toNat
      · obtain ⟨a, hok⟩ := exists_ofByteList_of_lt hlength hlt
        rw [← ofByteList_eq_bind hlength, hok]
        refine ⟨?_, ?_, ?_, ?_, fun _ => rfl⟩
        · exact ⟨fun _ => ⟨hlength, hlt⟩, fun _ => ⟨a, rfl⟩⟩
        · rintro b hb
          obtain rfl := Except.ok.inj hb
          exact ⟨isCanonical_of_ofByteList hok, toList_toBytes_of_ofByteList hok⟩
        · simp [hlength]
        · simp [hlt]
      · have hle := Nat.le_of_not_lt hlt
        rw [← ofByteList_eq_bind hlength, ofByteList_of_le hlength hle]
        simp [hlength, hlt, hle]
    · rw [ofByteList_of_length_ne hlength]
      simp [hlength]

theorem byte_encoding_at_modulus :
    (-1 : Fp).IsCanonical ∧ ofByteList (-1 : Fp).toBytes.toList = .ok (-1 : Fp) ∧
      FieldParams.fp.modulus.toBytes.toList.length = 32 ∧
      FieldParams.fp.modulus.toNat ≤ littleEndian FieldParams.fp.modulus.toBytes.toList ∧
      (ofByteList FieldParams.fp.modulus.toBytes.toList : Except ArithmeticError Fp) =
        .error .nonCanonical :=
  have hone : (-1 : Fp).IsCanonical := isCanonical_neg 1
  have hlength : FieldParams.fp.modulus.toBytes.toList.length = 32 := Vector.length_toList
  have hle : FieldParams.fp.modulus.toNat ≤
      littleEndian FieldParams.fp.modulus.toBytes.toList :=
    (UInt256.littleEndian_toBytes _).ge
  have h := byte_encoding_is_bijective .fp
  ⟨hone, (h.1 (-1) hone).1, hlength, hle, (h.2 _).2.2.2.1.2 ⟨hlength, hle⟩⟩

end FieldElement

end PallasVesta
