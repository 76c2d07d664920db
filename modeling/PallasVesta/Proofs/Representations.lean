import PallasVesta.Proofs.ByteEncoding
import PallasVesta.Proofs.RecordFields

namespace PallasVesta

open Data

namespace FieldElement

variable {M : FieldParams} {a : FieldElement M} {datum : Datum} {bytes : List UInt8}

theorem decode_bytes (hlength : bytes.length = 32) :
    (codec : Codec (FieldElement M)).decode (.bytes bytes) =
      (ofByteList bytes).mapError fun _ => .nonCanonical :=
  Codec.decode_of_admits (beq_iff_eq.2 hlength)

theorem decode_of_le (hlength : bytes.length = 32) (h : M.modulus.toNat ≤ littleEndian bytes) :
    (codec : Codec (FieldElement M)).decode (.bytes bytes) = .error .nonCanonical := by
  rw [decode_bytes hlength, ofByteList_of_le hlength h]
  rfl

section

variable {fields : List RecordField} {name : String}
  (hfield : fields.find? (·.name = name) = some ⟨name, (codec : Codec (FieldElement M))⟩)

include hfield

theorem check_eq (hlength : bytes.length = 32) :
    check fields (name, .bytes bytes) = .ok () ∨
      check fields (name, .bytes bytes) = .error .nonCanonical := by
  rw [check, hfield]
  dsimp only
  rw [decode_bytes hlength]
  cases (ofByteList bytes : Except ArithmeticError (FieldElement M)) with
  | error cause => exact .inr rfl
  | ok a => exact .inl rfl

theorem check_of_le (hlength : bytes.length = 32) (h : M.modulus.toNat ≤ littleEndian bytes) :
    check fields (name, .bytes bytes) = .error .nonCanonical := by
  rw [check, hfield]
  dsimp only
  rw [decode_of_le hlength h]
  rfl

end

theorem of_decode_eq_ok (h : codec.decode datum = .ok a) :
    ∃ bytes, datum = .bytes bytes ∧ bytes.length = 32 ∧ ofByteList bytes = .ok a := by
  have hadmits := Codec.admits_of_decode h
  obtain _ | _ | bytes := datum
  · nomatch hadmits
  · nomatch hadmits
  · have hlength : bytes.length = 32 := beq_iff_eq.1 hadmits
    rw [decode_bytes hlength] at h
    refine ⟨bytes, rfl, hlength, ?_⟩
    cases hbytes : (ofByteList bytes : Except ArithmeticError (FieldElement M)) with
    | error cause =>
        rw [hbytes] at h
        nomatch h
    | ok b =>
        rw [hbytes] at h
        exact congrArg Except.ok (Except.ok.inj h)

theorem lawful_codec : (codec : Codec (FieldElement M)).Lawful := by
  intro datum a h
  obtain ⟨bytes, rfl, -, hbytes⟩ := of_decode_eq_ok h
  exact congrArg Datum.bytes (toList_toBytes_of_ofByteList hbytes)

theorem accepts_codec_iff : codec.Accepts a ↔ a.IsCanonical := by
  constructor
  · rintro ⟨datum, h⟩
    obtain ⟨bytes, -, -, hbytes⟩ := of_decode_eq_ok h
    exact isCanonical_of_ofByteList hbytes
  · intro ha
    refine ⟨.bytes a.toBytes.toList, ?_⟩
    rw [decode_bytes Vector.length_toList, ofByteList_toList, ofBytes_toBytes ha]
    rfl

end FieldElement

namespace Normalization

theorem keyword_of_ofKeyword? {text : String} {normalization : Normalization}
    (h : ofKeyword? text = some normalization) : normalization.keyword = text := by
  rw [ofKeyword?.eq_def] at h
  split at h
  · rw [← Option.some.inj h, keyword]
  · rw [← Option.some.inj h, keyword]
  · nomatch h

theorem lawful_codec : codec.Lawful := by
  intro datum normalization h
  cases datum with
  | flag value => nomatch h
  | keyword text =>
      change (ofKeyword? text).elim (Except.error Refusal.malformed) Except.ok = _ at h
      cases htext : ofKeyword? text with
      | none =>
          rw [htext] at h
          nomatch h
      | some other =>
          rw [htext] at h
          rw [← Except.ok.inj h]
          exact congrArg Datum.keyword (keyword_of_ofKeyword? htext)
  | bytes values => nomatch h

theorem accepts_codec (normalization : Normalization) : codec.Accepts normalization := by
  refine ⟨.keyword normalization.keyword, ?_⟩
  cases normalization <;> rfl

end Normalization

variable {C : CurveParams}

namespace JacobianPoint

theorem lawful_record : (record : Record (JacobianPoint C)).Lawful where
  distinct := by simp [record]
  codecs := by
    rw [record, List.forall_mem_cons, List.forall_mem_cons, List.forall_mem_singleton]
    exact ⟨FieldElement.lawful_codec, FieldElement.lawful_codec, FieldElement.lawful_codec⟩
  join_split _ := rfl

theorem accepted_split_iff {p : JacobianPoint C} : (record.split p).Accepted ↔ p.IsCanonical := by
  show (∀ a ∈ some p.x, _) ∧ (∀ a ∈ some p.y, _) ∧ (∀ a ∈ some p.z, _) ∧ True ↔ _
  simp only [Option.mem_some_iff, forall_eq', FieldElement.accepts_codec_iff, and_true]
  exact ⟨fun h => ⟨h.1, h.2.1, h.2.2⟩, fun h => ⟨h.x, h.y, h.z⟩⟩

theorem isCanonical_of_join {gathered : Gathered (record : Record (JacobianPoint C)).fields}
    (hgathered : gathered.Accepted) {p : JacobianPoint C} (h : record.join gathered = .ok p) :
    p.IsCanonical := by
  obtain ⟨_ | x, _ | y, _ | z, ⟨⟩⟩ := gathered
  case some.some.some =>
    obtain rfl := Except.ok.inj h
    exact accepted_split_iff.1 hgathered
  all_goals nomatch h

theorem ofData_of_le {x y z : List UInt8} (hx : x.length = 32) (hy : y.length = 32)
    (hz : z.length = 32) {data : List (String × Datum)}
    (hdata : data.Perm [("x", .bytes x), ("y", .bytes y), ("z", .bytes z)])
    (hle : C.base.modulus.toNat ≤ littleEndian x ∨ C.base.modulus.toNat ≤ littleEndian y ∨
      C.base.modulus.toNat ≤ littleEndian z) :
    (record : Record (JacobianPoint C)).ofData data = .error .nonCanonical := by
  refine Record.ofData_eq_error hdata (by simp) ?_ ?_
  · rw [List.forall_mem_cons, List.forall_mem_cons, List.forall_mem_singleton]
    exact ⟨FieldElement.check_eq rfl hx, FieldElement.check_eq rfl hy,
      FieldElement.check_eq rfl hz⟩
  · obtain hle | hle | hle := hle
    · exact ⟨_, .head _, FieldElement.check_of_le rfl hx hle⟩
    · exact ⟨_, .tail _ (.head _), FieldElement.check_of_le rfl hy hle⟩
    · exact ⟨_, .tail _ (.tail _ (.head _)), FieldElement.check_of_le rfl hz hle⟩

end JacobianPoint

namespace AffinePoint

theorem lawful_record : (record : Record (AffinePoint C)).Lawful where
  distinct := by simp [record]
  codecs := by
    rw [record, List.forall_mem_cons, List.forall_mem_cons, List.forall_mem_singleton]
    exact ⟨FieldElement.lawful_codec, FieldElement.lawful_codec, lawful_flagCodec⟩
  join_split _ := rfl

theorem accepted_split_iff {a : AffinePoint C} : (record.split a).Accepted ↔ a.IsCanonical := by
  show (∀ b ∈ some a.x, _) ∧ (∀ b ∈ some a.y, _) ∧ (∀ b ∈ some a.infinity, _) ∧ True ↔ _
  simp only [Option.mem_some_iff, forall_eq', FieldElement.accepts_codec_iff, accepts_flagCodec,
    and_true]
  exact ⟨fun h => ⟨h.1, h.2⟩, fun h => ⟨h.x, h.y⟩⟩

theorem isCanonical_of_join {gathered : Gathered (record : Record (AffinePoint C)).fields}
    (hgathered : gathered.Accepted) {a : AffinePoint C} (h : record.join gathered = .ok a) :
    a.IsCanonical := by
  obtain ⟨_ | x, _ | y, _ | infinity, ⟨⟩⟩ := gathered
  case some.some.some =>
    obtain rfl := Except.ok.inj h
    exact accepted_split_iff.1 hgathered
  all_goals nomatch h

theorem ofData_of_le {x y : List UInt8} (hx : x.length = 32) (hy : y.length = 32)
    {infinity : Bool} {data : List (String × Datum)}
    (hdata : data.Perm [("x", .bytes x), ("y", .bytes y), ("infinity", .flag infinity)])
    (hle : C.base.modulus.toNat ≤ littleEndian x ∨ C.base.modulus.toNat ≤ littleEndian y) :
    (record : Record (AffinePoint C)).ofData data = .error .nonCanonical := by
  refine Record.ofData_eq_error hdata (by simp) ?_ ?_
  · rw [List.forall_mem_cons, List.forall_mem_cons, List.forall_mem_singleton]
    exact ⟨FieldElement.check_eq rfl hx, FieldElement.check_eq rfl hy, .inl rfl⟩
  · obtain hle | hle := hle
    · exact ⟨_, .head _, FieldElement.check_of_le rfl hx hle⟩
    · exact ⟨_, .tail _ (.head _), FieldElement.check_of_le rfl hy hle⟩

end AffinePoint

namespace Settings

theorem lawful_record : record.Lawful where
  distinct := by simp [record]
  codecs := by
    rw [record, List.forall_mem_cons, List.forall_mem_singleton]
    exact ⟨lawful_flagCodec, Normalization.lawful_codec⟩
  join_split _ := rfl

theorem accepted (gathered : Gathered record.fields) : gathered.Accepted :=
  ⟨fun value _ => accepts_flagCodec value, fun value _ => value.accepts_codec, trivial⟩

end Settings

end PallasVesta
