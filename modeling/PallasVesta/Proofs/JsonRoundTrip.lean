import Mathlib.Data.List.Permutation
import PallasVesta.Proofs.WrittenTexts

namespace PallasVesta

open Data Json

namespace Data.Record

variable {α : Type} {record : Record α} {written : List (String × Datum)}
  {texts : List (String × String)}

theorem exists_run_of_perm (record : Record α) (hplain : ∀ e ∈ written, IsPlainEntry e)
    (htexts : texts.Perm (written.map fun (name, d) => (name, writeDatum d))) :
    ∃ data, data.Perm written ∧
      (Json.record record).run (writeObject texts) = record.ofData data := by
  rw [← List.mem_permutations', ← List.map_permutations'] at htexts
  obtain ⟨data, hdata, rfl⟩ := List.mem_map.1 htexts
  rw [List.mem_permutations'] at hdata
  have hplain : ∀ e ∈ data, IsPlainEntry e := fun e he => hplain e (hdata.mem_iff.1 he)
  exact ⟨data, hdata, (reads_record record hplain).run⟩

end Data.Record

namespace FieldElement

variable {M : FieldParams}

theorem ofJson_of_run {text : String} {bytes : List UInt8}
    (h : (Json.bytes 31).run text = .ok bytes) :
    (ofJson text : Except Refusal (FieldElement M)) =
      (ofByteList bytes).mapError fun _ => .nonCanonical := by
  obtain ⟨rest, hrun, hblank⟩ := Reader.run_eq_ok_iff.1 h
  have hdatum : StateT.run (datum (.bytes 31)) text.toList = .ok (.bytes bytes, rest) :=
    run_bind_of_ok hrun
  rw [ofJson, Reader.run, Json.value, codec, run_bind_of_ok hdatum]
  dsimp only
  cases ofByteList bytes with
  | error cause => rfl
  | ok a =>
      show (if rest.all isBlank then Except.ok a else Except.error Refusal.malformed) = _
      rw [if_pos hblank]
      rfl

theorem run_of_ofJson {text : String} {a : FieldElement M} (h : ofJson text = .ok a) :
    (Json.bytes 31).run text = .ok a.toBytes.toList := by
  obtain ⟨rest, hrun, hblank⟩ := Reader.run_eq_ok_iff.1 h
  obtain ⟨d, between, hdatum, hnext⟩ := exists_of_run_bind hrun
  obtain ⟨bytes, behind, hbytes, hpure⟩ := exists_of_run_bind hdatum
  obtain ⟨rfl, rfl⟩ := Prod.mk.inj (Except.ok.inj hpure)
  change StateT.run (ofExcept ((ofByteList bytes).mapError fun _ => Refusal.nonCanonical))
    behind = _ at hnext
  cases hlist : (ofByteList bytes : Except ArithmeticError (FieldElement M)) with
  | error cause =>
      rw [hlist] at hnext
      nomatch hnext
  | ok b =>
      rw [hlist] at hnext
      obtain ⟨rfl, rfl⟩ := Prod.mk.inj (Except.ok.inj hnext)
      rw [toList_toBytes_of_ofByteList hlist]
      exact Reader.run_eq_ok_iff.2 ⟨_, hbytes, hblank⟩

end FieldElement

variable {C : CurveParams} {given : List (String × String)}

namespace JacobianPoint

theorem exists_ofJson_of_perm {x y z : List UInt8}
    (hgiven : given.Perm [("x", writeBytes x), ("y", writeBytes y), ("z", writeBytes z)]) :
    ∃ data : List (String × Datum),
      data.Perm [("x", .bytes x), ("y", .bytes y), ("z", .bytes z)] ∧
        (ofJson (writeObject given) : Except Refusal (JacobianPoint C)) = record.ofData data := by
  refine Record.exists_run_of_perm record ?_ hgiven
  rw [List.forall_mem_cons, List.forall_mem_cons, List.forall_mem_singleton]
  exact ⟨.of rfl rfl, .of rfl rfl, .of rfl rfl⟩

theorem ofJson_of_isCanonical {p : JacobianPoint C} (hp : p.IsCanonical)
    (hgiven : given.Perm [("x", p.x.toJson), ("y", p.y.toJson), ("z", p.z.toJson)]) :
    ofJson (writeObject given) = .ok p := by
  obtain ⟨data, hdata, hread⟩ := exists_ofJson_of_perm hgiven
  rw [hread]
  exact lawful_record.ofData_toData (accepted_split_iff.2 hp) hdata

end JacobianPoint

namespace AffinePoint

theorem exists_ofJson_of_perm {x y : List UInt8} {infinity : Bool}
    (hgiven : given.Perm
      [("x", writeBytes x), ("y", writeBytes y), ("infinity", boolText infinity)]) :
    ∃ data : List (String × Datum),
      data.Perm [("x", .bytes x), ("y", .bytes y), ("infinity", .flag infinity)] ∧
        (ofJson (writeObject given) : Except Refusal (AffinePoint C)) = record.ofData data := by
  refine Record.exists_run_of_perm record ?_ hgiven
  rw [List.forall_mem_cons, List.forall_mem_cons, List.forall_mem_singleton]
  exact ⟨.of rfl rfl, .of rfl rfl, .of rfl rfl⟩

theorem ofJson_of_isCanonical {a : AffinePoint C} (ha : a.IsCanonical)
    (hgiven : given.Perm
      [("x", a.x.toJson), ("y", a.y.toJson), ("infinity", boolText a.infinity)]) :
    ofJson (writeObject given) = .ok a := by
  obtain ⟨data, hdata, hread⟩ := exists_ofJson_of_perm hgiven
  rw [hread]
  exact lawful_record.ofData_toData (accepted_split_iff.2 ha) hdata

end AffinePoint

theorem Normalization.isPlainDatum_encode (normalization : Normalization) :
    isPlainDatum (codec.encode normalization) := by
  cases normalization <;> rfl

namespace Settings

def entries (trace : Option Bool) (affine : Option Normalization) : List (String × Datum) :=
  (trace.map fun flag => ("trace", .flag flag)).toList ++
    (affine.map fun normalization => ("affine", .keyword normalization.keyword)).toList

def texts (trace : Option Bool) (affine : Option Normalization) : List (String × String) :=
  (trace.map fun flag => ("trace", boolText flag)).toList ++
    (affine.map fun normalization => ("affine", normalization.toJson)).toList

variable {trace : Option Bool} {affine : Option Normalization}

theorem ofData_of_perm {data : List (String × Datum)} (hdata : data.Perm (entries trace affine)) :
    record.ofData data = .ok ⟨trace.getD false, affine.getD .compatible⟩ := by
  let gathered : Gathered record.fields := .cons trace (.cons affine (.empty []))
  have hentries : gathered.entries = entries trace affine := by
    cases trace <;> cases affine <;> rfl
  exact lawful_record.ofData_of_perm (accepted gathered) (hentries ▸ hdata)

theorem ofJson_of_perm (hgiven : given.Perm (texts trace affine)) :
    ofJson (writeObject given) = .ok ⟨trace.getD false, affine.getD .compatible⟩ := by
  have htexts : texts trace affine =
      (entries trace affine).map fun (name, d) => (name, writeDatum d) := by
    cases trace <;> cases affine <;> rfl
  have hplain : ∀ e ∈ entries trace affine, IsPlainEntry e := by
    intro e he
    obtain he | he := List.mem_append.1 he
    · obtain ⟨flag, -, rfl⟩ := Option.map_eq_some_iff.1 (Option.mem_toList.1 he)
      exact .of rfl rfl
    · obtain ⟨normalization, -, rfl⟩ := Option.map_eq_some_iff.1 (Option.mem_toList.1 he)
      exact .of rfl normalization.isPlainDatum_encode
  rw [htexts] at hgiven
  obtain ⟨data, hdata, hread⟩ := Record.exists_run_of_perm record hplain hgiven
  exact hread.trans (ofData_of_perm hdata)

end Settings

/-- What is represented is read back. No element is read whose bytes spell the modulus or more, at
the top or within a point with its fields in any order, and settings that are missing are the
standard ones: of data in general, and of the JSON text that is written of them. -/
theorem json_is_lossless_and_strict (M : FieldParams) (C : CurveParams) :
    -- Elements are sequences of exactly 32 bytes.
    (((∀ a : FieldElement M, a.IsCanonical →
          FieldElement.codec.decode (FieldElement.codec.encode a) = .ok a) ∧
        (∀ d (a : FieldElement M), FieldElement.codec.decode d = .ok a →
          a.IsCanonical ∧ FieldElement.codec.encode a = d) ∧
        ∀ bytes : List UInt8, bytes.length = 32 → M.modulus.toNat ≤ littleEndian bytes →
          (FieldElement.codec : Codec (FieldElement M)).decode (.bytes bytes) =
            .error .nonCanonical) ∧
      -- Triples are maps of their fields, in any order.
      ((∀ (p : JacobianPoint C) data, p.IsCanonical →
          data.Perm (JacobianPoint.record.toData p) → JacobianPoint.record.ofData data = .ok p) ∧
        (∀ data (p : JacobianPoint C), JacobianPoint.record.ofData data = .ok p →
          p.IsCanonical) ∧
        ∀ (x y z : List UInt8) (data : List (String × Datum)),
          x.length = 32 → y.length = 32 → z.length = 32 →
          data.Perm [("x", .bytes x), ("y", .bytes y), ("z", .bytes z)] →
          C.base.modulus.toNat ≤ littleEndian x ∨ C.base.modulus.toNat ≤ littleEndian y ∨
            C.base.modulus.toNat ≤ littleEndian z →
          (JacobianPoint.record : Record (JacobianPoint C)).ofData data =
            .error .nonCanonical) ∧
      -- Affine points, with either flag.
      ((∀ (a : AffinePoint C) data, a.IsCanonical →
          data.Perm (AffinePoint.record.toData a) → AffinePoint.record.ofData data = .ok a) ∧
        (∀ data (a : AffinePoint C), AffinePoint.record.ofData data = .ok a → a.IsCanonical) ∧
        ∀ (x y : List UInt8) (infinity : Bool) (data : List (String × Datum)),
          x.length = 32 → y.length = 32 →
          data.Perm [("x", .bytes x), ("y", .bytes y), ("infinity", .flag infinity)] →
          C.base.modulus.toNat ≤ littleEndian x ∨ C.base.modulus.toNat ≤ littleEndian y →
          (AffinePoint.record : Record (AffinePoint C)).ofData data = .error .nonCanonical) ∧
      -- Settings, of which any may be missing.
      (∀ normalization : Normalization, Normalization.codec.decode
        (Normalization.codec.encode normalization) = .ok normalization) ∧
      (∀ (settings : Settings) data, data.Perm (Settings.record.toData settings) →
        Settings.record.ofData data = .ok settings) ∧
      ∀ (trace : Option Bool) (affine : Option Normalization) (data : List (String × Datum)),
        data.Perm (Settings.entries trace affine) → Settings.record.ofData data =
          .ok ⟨trace.getD false, affine.getD .compatible⟩) ∧
    -- The text of data is read as the data are.
    ((∀ {α : Type} (codec : Codec α) d, isPlainDatum d →
        (Json.value codec).run (writeDatum d) = codec.decode d) ∧
      ∀ {α : Type} (record : Record α) data, (∀ e ∈ data, IsPlainEntry e) →
        (Json.record record).run (writeRecord data) = record.ofData data) ∧
    -- Elements are lists of exactly 32 bytes.
    ((∀ bytes, (Json.bytes 31).run (writeBytes bytes) = exactly 32 bytes) ∧
      (∀ a : FieldElement M, a.IsCanonical → FieldElement.ofJson a.toJson = .ok a) ∧
      (∀ text (a : FieldElement M), FieldElement.ofJson text = .ok a → a.IsCanonical ∧
        ∃ bytes, (Json.bytes 31).run text = .ok bytes ∧ a.toJson = writeBytes bytes) ∧
      ∀ text bytes, (Json.bytes 31).run text = .ok bytes → M.modulus.toNat ≤ littleEndian bytes →
        (FieldElement.ofJson text : Except Refusal (FieldElement M)) = .error .nonCanonical) ∧
    -- Triples.
    ((∀ p : JacobianPoint C, p.IsCanonical → JacobianPoint.ofJson p.toJson = .ok p ∧
        ∀ texts : List (String × String),
          texts.Perm [("x", p.x.toJson), ("y", p.y.toJson), ("z", p.z.toJson)] →
          JacobianPoint.ofJson (writeObject texts) = .ok p) ∧
      (∀ text (p : JacobianPoint C), JacobianPoint.ofJson text = .ok p → p.IsCanonical) ∧
      ∀ (x y z : List UInt8) (texts : List (String × String)),
        x.length = 32 → y.length = 32 → z.length = 32 →
        texts.Perm [("x", writeBytes x), ("y", writeBytes y), ("z", writeBytes z)] →
        C.base.modulus.toNat ≤ littleEndian x ∨ C.base.modulus.toNat ≤ littleEndian y ∨
          C.base.modulus.toNat ≤ littleEndian z →
        (JacobianPoint.ofJson (writeObject texts) : Except Refusal (JacobianPoint C)) =
          .error .nonCanonical) ∧
    -- Affine points, with either flag.
    ((∀ a : AffinePoint C, a.IsCanonical → AffinePoint.ofJson a.toJson = .ok a ∧
        ∀ texts : List (String × String),
          texts.Perm [("x", a.x.toJson), ("y", a.y.toJson), ("infinity", boolText a.infinity)] →
          AffinePoint.ofJson (writeObject texts) = .ok a) ∧
      (∀ text (a : AffinePoint C), AffinePoint.ofJson text = .ok a → a.IsCanonical) ∧
      ∀ (x y : List UInt8) (infinity : Bool) (texts : List (String × String)),
        x.length = 32 → y.length = 32 →
        texts.Perm [("x", writeBytes x), ("y", writeBytes y), ("infinity", boolText infinity)] →
        C.base.modulus.toNat ≤ littleEndian x ∨ C.base.modulus.toNat ≤ littleEndian y →
        (AffinePoint.ofJson (writeObject texts) : Except Refusal (AffinePoint C)) =
          .error .nonCanonical) ∧
    -- Settings, of which any may be missing.
    (∀ normalization : Normalization,
      Normalization.reader.run normalization.toJson = .ok normalization) ∧
    (∀ settings : Settings, Settings.ofJson settings.toJson = .ok settings) ∧
    ∀ (trace : Option Bool) (affine : Option Normalization) (given : List (String × String)),
      given.Perm (Settings.texts trace affine) → Settings.ofJson (writeObject given) =
        .ok ⟨trace.getD false, affine.getD .compatible⟩ := by
  refine ⟨⟨⟨?_, ?_, ?_⟩, ⟨?_, ?_, ?_⟩, ⟨?_, ?_, ?_⟩, ?_, ?_, ?_⟩, ⟨?_, ?_⟩,
    ⟨?_, ?_, ?_, ?_⟩, ⟨?_, ?_, ?_⟩, ⟨?_, ?_, ?_⟩, ?_, ?_, ?_⟩
  · exact fun a ha => FieldElement.lawful_codec.decode_encode (FieldElement.accepts_codec_iff.2 ha)
  · exact fun d a h => ⟨FieldElement.accepts_codec_iff.1 ⟨d, h⟩, FieldElement.lawful_codec d a h⟩
  · exact fun bytes hlength hle => FieldElement.decode_of_le hlength hle
  · exact fun p data hp => JacobianPoint.lawful_record.ofData_toData
      (JacobianPoint.accepted_split_iff.2 hp)
  · intro data p h
    obtain ⟨gathered, hgathered, hjoin⟩ := Record.exists_of_ofData h
    exact JacobianPoint.isCanonical_of_join hgathered hjoin
  · exact fun x y z data hx hy hz hdata => JacobianPoint.ofData_of_le hx hy hz hdata
  · exact fun a data ha => AffinePoint.lawful_record.ofData_toData
      (AffinePoint.accepted_split_iff.2 ha)
  · intro data a h
    obtain ⟨gathered, hgathered, hjoin⟩ := Record.exists_of_ofData h
    exact AffinePoint.isCanonical_of_join hgathered hjoin
  · exact fun x y infinity data hx hy hdata => AffinePoint.ofData_of_le hx hy hdata
  · exact fun normalization =>
      Normalization.lawful_codec.decode_encode normalization.accepts_codec
  · exact fun settings data => Settings.lawful_record.ofData_toData (Settings.accepted _)
  · exact fun trace affine data => Settings.ofData_of_perm
  · exact fun codec d hd => (reads_value codec hd).run
  · exact fun record data hplain => (reads_record record hplain).run
  · exact fun bytes => (reads_bytes 31 bytes).run
  · intro a ha
    exact ((reads_value FieldElement.codec rfl).run).trans <|
      FieldElement.lawful_codec.decode_encode (FieldElement.accepts_codec_iff.2 ha)
  · exact fun text a h =>
      ⟨FieldElement.isCanonical_of_ofJson h, _, FieldElement.run_of_ofJson h, rfl⟩
  · intro text bytes hrun hle
    rw [FieldElement.ofJson_of_run hrun]
    have hlength : bytes.length = 32 := (ensures_bytes 31).run hrun
    rw [FieldElement.ofByteList_of_le hlength hle]
    rfl
  · exact fun p hp => ⟨JacobianPoint.ofJson_of_isCanonical hp (.refl _), fun texts htexts =>
      JacobianPoint.ofJson_of_isCanonical hp htexts⟩
  · exact fun text p h => JacobianPoint.isCanonical_of_ofJson h
  · intro x y z texts hx hy hz htexts hle
    obtain ⟨data, hdata, hread⟩ := JacobianPoint.exists_ofJson_of_perm htexts
    rw [hread]
    exact JacobianPoint.ofData_of_le hx hy hz hdata hle
  · exact fun a ha => ⟨AffinePoint.ofJson_of_isCanonical ha (.refl _), fun texts htexts =>
      AffinePoint.ofJson_of_isCanonical ha htexts⟩
  · exact fun text a h => AffinePoint.isCanonical_of_ofJson h
  · intro x y infinity texts hx hy htexts hle
    obtain ⟨data, hdata, hread⟩ := AffinePoint.exists_ofJson_of_perm htexts
    rw [hread]
    exact AffinePoint.ofData_of_le hx hy hdata hle
  · intro normalization
    exact ((reads_value Normalization.codec normalization.isPlainDatum_encode).run).trans <|
      Normalization.lawful_codec.decode_encode normalization.accepts_codec
  · intro settings
    exact Settings.ofJson_of_perm (.refl (Settings.texts settings.trace settings.affine))
  · exact fun trace affine given => Settings.ofJson_of_perm

theorem json_at_modulus :
    (-1 : Fp).IsCanonical ∧ FieldElement.ofJson (-1 : Fp).toJson = .ok (-1 : Fp) ∧
      (FieldElement.ofJson (writeBytes FieldParams.fp.modulus.toBytes.toList) :
        Except Refusal Fp) = .error .nonCanonical ∧
      (AffinePoint.ofJson (writeObject
        [("x", (1 : Fp).toJson), ("y", writeBytes FieldParams.fp.modulus.toBytes.toList),
          ("infinity", boolText true)]) : Except Refusal (AffinePoint .pallas)) =
        .error .nonCanonical ∧
      Settings.ofJson (writeObject [("affine", Normalization.exact.toJson)]) =
        .ok ⟨false, .exact⟩ := by
  obtain ⟨-, -, ⟨hbytes, hback, -, hrefused⟩, -, ⟨-, -, haffine⟩, -, -, hsettings⟩ :=
    json_is_lossless_and_strict .fp .pallas
  have hone : (-1 : Fp).IsCanonical := FieldElement.isCanonical_neg 1
  have hlength : FieldParams.fp.modulus.toBytes.toList.length = 32 := Vector.length_toList
  have hle : FieldParams.fp.modulus.toNat ≤
      littleEndian FieldParams.fp.modulus.toBytes.toList :=
    (UInt256.littleEndian_toBytes _).ge
  have hrun := hbytes FieldParams.fp.modulus.toBytes.toList
  rw [exactly, if_pos hlength] at hrun
  refine ⟨hone, hback (-1) hone, hrefused _ _ hrun hle, ?_, ?_⟩
  · exact haffine _ _ true _ Vector.length_toList hlength (.refl _) (.inr hle)
  · exact hsettings none (some .exact) _ (.refl _)

end PallasVesta
