import PallasVesta.Json.Record
import PallasVesta.Proofs.Representations

namespace PallasVesta

namespace Json

open Data

variable {α β : Type}

theorem exists_of_run_bind {reader : Reader α} {next : α → Reader β} {text rest : List Char}
    {result : β} (h : StateT.run (reader >>= next) text = .ok (result, rest)) :
    ∃ value between, StateT.run reader text = .ok (value, between) ∧
      StateT.run (next value) between = .ok (result, rest) := by
  rw [StateT.run_bind] at h
  cases hreader : StateT.run reader text with
  | error cause =>
      rw [hreader] at h
      nomatch h
  | ok pair =>
      rw [hreader] at h
      exact ⟨_, _, rfl, h⟩

theorem Reader.run_eq_ok_iff {reader : Reader α} {text : String} {value : α} :
    reader.run text = .ok value ↔
      ∃ rest, StateT.run reader text.toList = .ok (value, rest) ∧ rest.all isBlank := by
  rw [Reader.run]
  cases StateT.run reader text.toList with
  | error cause => exact ⟨nofun, nofun⟩
  | ok pair =>
      obtain ⟨result, rest⟩ := pair
      show (if rest.all isBlank then Except.ok result else Except.error Refusal.malformed) = _ ↔ _
      constructor
      · intro h
        split at h
        · next hblank => exact ⟨rest, by rw [Except.ok.inj h], hblank⟩
        · nomatch h
      · rintro ⟨other, hrun, hblank⟩
        obtain ⟨rfl, rfl⟩ := Prod.mk.inj (Except.ok.inj hrun)
        rw [if_pos hblank]

def Reader.Ensures (reader : Reader α) (property : α → Prop) : Prop :=
  ∀ text value rest, StateT.run reader text = .ok (value, rest) → property value

namespace Reader.Ensures

variable {property : β → Prop}

theorem pure {value : β} (h : property value) : Ensures (Pure.pure value) property := by
  intro text result rest hrun
  obtain ⟨rfl, -⟩ := Prod.mk.inj (Except.ok.inj hrun)
  exact h

theorem throw (cause : Refusal) : Ensures (MonadExcept.throw cause) property := by
  intro text value rest hrun
  nomatch hrun

theorem bind {reader : Reader α} {first : α → Prop} {next : α → Reader β}
    (hfirst : reader.Ensures first) (hnext : ∀ value, first value → (next value).Ensures property) :
    Ensures (reader >>= next) property := by
  intro text result rest hrun
  obtain ⟨value, between, hreader, hresult⟩ := exists_of_run_bind hrun
  exact hnext value (hfirst text value between hreader) between result rest hresult

theorem anything (reader : Reader α) : reader.Ensures fun _ => True := fun _ _ _ _ => trivial

theorem after {reader : Reader α} {next : α → Reader β}
    (hnext : ∀ value, (next value).Ensures property) : Ensures (reader >>= next) property :=
  bind (anything reader) fun value _ => hnext value

theorem run {reader : Reader β} (h : reader.Ensures property) {text : String} {value : β}
    (hrun : reader.run text = .ok value) : property value := by
  obtain ⟨rest, hreader, -⟩ := run_eq_ok_iff.1 hrun
  exact h text.toList value rest hreader

end Reader.Ensures

theorem ensures_ofExcept (outcome : Except Refusal α) :
    (ofExcept outcome : Reader α).Ensures fun value => outcome = .ok value := by
  cases outcome with
  | error cause => exact .throw cause
  | ok value => exact .pure rfl

theorem ensures_moreBytes (n : Nat) : (moreBytes n).Ensures fun bytes => bytes.length = n := by
  induction n with
  | zero => exact .after fun _ => .pure rfl
  | succ n ih =>
      refine .after fun _ => .after fun byte => .bind ih fun bytes hlength => ?_
      exact .pure (congrArg (· + 1) hlength)

theorem ensures_bytes (n : Nat) : (bytes n).Ensures fun bytes => bytes.length = n + 1 := by
  refine .after fun _ => .after fun byte => .bind (ensures_moreBytes n) fun bytes hlength => ?_
  exact .pure (congrArg (· + 1) hlength)

theorem ensures_datum (shape : Shape) :
    (datum shape).Ensures fun datum => shape.admits datum = true := by
  cases shape with
  | flag => exact .after fun _ => .pure rfl
  | keyword => exact .after fun _ => .pure rfl
  | bytes n => exact .bind (ensures_bytes n) fun bytes hlength => .pure (beq_iff_eq.2 hlength)

theorem ensures_value (codec : Codec α) : (value codec).Ensures codec.Accepts := by
  refine .bind (ensures_datum codec.shape) fun datum hdatum => ?_
  intro text result rest h
  refine ⟨datum, ?_⟩
  rw [Codec.decode_of_admits hdatum]
  exact ensures_ofExcept _ text result rest h

section Records

open Gathered

variable {field : RecordField} {fields : List RecordField} {key : String}

theorem entry_cons_of_ne (h : field.name ≠ key) (value : Option field.Value)
    (rest : Gathered fields) :
    entry key (cons value rest) = entry key rest >>= fun rest => pure (cons value rest) :=
  if_neg h

theorem entry_cons_none (h : field.name = key) (rest : Gathered fields) :
    entry key (cons none rest) = (mark ':' >>= fun _ => value field.codec) >>= fun value =>
      pure (cons (some value) rest) :=
  if_pos h

theorem entry_cons_some (h : field.name = key) (value : field.Value) (rest : Gathered fields) :
    entry key (cons (some value) rest) = throw .malformed :=
  if_pos h

theorem ensures_entry {gathered : Gathered fields} (hgathered : gathered.Accepted) (key : String) :
    (entry key gathered).Ensures Accepted := by
  induction fields with
  | nil => exact .after fun _ => .pure trivial
  | cons field fields ih =>
      obtain ⟨value, rest, rfl⟩ := exists_cons gathered
      by_cases hname : field.name = key
      · cases value with
        | some value =>
            rw [entry_cons_some hname]
            exact .throw _
        | none =>
            rw [entry_cons_none hname]
            refine .bind (.after fun _ => ensures_value field.codec) fun value hvalue => ?_
            exact .pure ⟨fun a ha => Option.some.inj ha ▸ hvalue, hgathered.2⟩
      · rw [entry_cons_of_ne hname]
        exact .bind (ih hgathered.2) fun rest hrest => .pure ⟨hgathered.1, hrest⟩

theorem ensures_entries (fuel : Nat) {gathered : Gathered fields} (hgathered : gathered.Accepted) :
    (entries fuel gathered).Ensures Accepted := by
  induction fuel generalizing gathered with
  | zero => exact .throw _
  | succ fuel ih =>
      rw [entries]
      refine .after fun key => .bind (ensures_entry hgathered key) fun gathered hgathered => ?_
      refine .after fun c => ?_
      split
      · exact .after fun _ => ih hgathered
      · exact .after fun _ => .pure hgathered

theorem ensures_items (fields : List RecordField) : (items fields).Ensures Accepted := by
  induction fields with
  | nil => exact .throw _
  | cons field fields ih =>
      rw [items]
      refine .bind (ensures_value field.codec) fun first hfirst => .after fun c => ?_
      have haccepted : ∀ a ∈ some first, field.codec.Accepts a := fun a ha =>
        Option.some.inj ha ▸ hfirst
      split
      · refine .after fun _ => .bind ih fun rest hrest => ?_
        exact .pure ⟨haccepted, hrest⟩
      · exact .after fun _ => .pure ⟨haccepted, accepted_empty fields⟩

/-- Whatever the text holds and in either form, only accepted values are gathered from it. -/
theorem ensures_gathered (fields : List RecordField) :
    (gathered fields).Ensures Accepted := by
  have hempty := accepted_empty fields
  rw [gathered]
  refine .after fun c => ?_
  split
  · refine .after fun _ => .after fun c => ?_
    split
    · exact .after fun _ => .pure hempty
    · exact .after fun text => ensures_entries _ hempty
  · refine .after fun _ => .after fun c => ?_
    split
    · exact .after fun _ => .pure hempty
    · exact ensures_items fields
  · exact .throw _

theorem exists_of_run_record {record : Record α} {text : String} {value : α}
    (h : (Json.record record).run text = .ok value) :
    ∃ gathered : Gathered record.fields, gathered.Accepted ∧ record.join gathered = .ok value := by
  suffices hensures : (Json.record record).Ensures fun value =>
      ∃ gathered : Gathered record.fields, gathered.Accepted ∧ record.join gathered = .ok value
    from hensures.run h
  refine .bind (ensures_gathered record.fields) fun gathered hgathered => ?_
  intro text result rest hrun
  exact ⟨gathered, hgathered, ensures_ofExcept _ text result rest hrun⟩

end Records

end Json

theorem FieldElement.isCanonical_of_ofJson {M : FieldParams} {text : String} {a : FieldElement M}
    (h : ofJson text = .ok a) : a.IsCanonical :=
  accepts_codec_iff.1 ((Json.ensures_value codec).run h)

variable {C : CurveParams}

theorem JacobianPoint.isCanonical_of_ofJson {text : String} {p : JacobianPoint C}
    (h : ofJson text = .ok p) : p.IsCanonical := by
  obtain ⟨gathered, hgathered, hjoin⟩ := Json.exists_of_run_record h
  exact isCanonical_of_join hgathered hjoin

theorem AffinePoint.isCanonical_of_ofJson {text : String} {a : AffinePoint C}
    (h : ofJson text = .ok a) : a.IsCanonical := by
  obtain ⟨gathered, hgathered, hjoin⟩ := Json.exists_of_run_record h
  exact isCanonical_of_join hgathered hjoin

end PallasVesta
