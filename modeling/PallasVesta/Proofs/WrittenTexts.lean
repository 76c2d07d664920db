import PallasVesta.Proofs.WrittenValues

namespace PallasVesta.Json

open Data

variable {α : Type}

section Skipping

theorem run_skipScalar (byte : UInt8) {c : Char} (hc : c = ',' ∨ c = ']') (rest : List Char) :
    StateT.run skipScalar ((toString byte.toNat).toList ++ c :: rest) = .ok ((), c :: rest) := by
  obtain ⟨d, digits, htext, hdigits, hzero, -⟩ := exists_toList_byte byte
  have hd : d.isDigit := hdigits d (.head _)
  have hrun := run_digits hdigits (isDigit_of_comma_or_bracket hc) rest
  have hmagnitude : StateT.run skipMagnitude (d :: (digits ++ c :: rest)) = .ok ((), c :: rest) := by
    rw [skipMagnitude, ← List.cons_append, run_bind_of_ok hrun]
    split
    · next h => nomatch h
    · next h =>
        obtain ⟨rfl, rfl⟩ := List.cons.inj h
        nomatch hzero rfl
    · rcases hc with rfl | rfl <;> rfl
  rw [htext, List.cons_append, skipScalar, run_bind_of_ok (run_peek (isBlank_of_isDigit hd) _)]
  split
  case h_6 => exact hmagnitude
  all_goals exact absurd hd (by decide)

theorem Reader.Reads.skipScalarThen {next : Unit → Reader α} {outcome : Except Refusal α}
    {byte : UInt8} {bytes : List UInt8} (hnext : (next ()).Reads (followingBytes bytes) outcome) :
    Reads (skipScalar >>= next) ((toString byte.toNat).toList ++ followingBytes bytes) outcome :=
  .beforeBytes (fun _ rest hc => run_skipScalar byte hc rest) hnext

theorem reads_skipAfter_nil (fuel : Nat) : (skipAfter fuel []).Reads [] (.ok ()) := by
  cases fuel <;> exact .pure ()

theorem reads_skipFrom_byte {fuel : Nat} {frames : List Frame} (byte : UInt8) {bytes : List UInt8}
    {outcome : Except Refusal Unit}
    (hafter : (skipAfter fuel frames).Reads (followingBytes bytes) outcome) :
    (skipFrom (fuel + 1) frames).Reads ((toString byte.toNat).toList ++ followingBytes bytes)
      outcome := by
  have hskip : Reader.Reads (skipScalar >>= fun _ => skipAfter fuel frames)
      ((toString byte.toNat).toList ++ followingBytes bytes) outcome := .skipScalarThen hafter
  obtain ⟨d, digits, htext, hdigits, -, -⟩ := exists_toList_byte byte
  have hd : d.isDigit := hdigits d (.head _)
  rw [htext, List.cons_append] at hskip ⊢
  rw [skipFrom]
  refine .peek (isBlank_of_isDigit hd) ?_
  split
  case h_3 => exact hskip
  all_goals exact absurd hd (by decide)

/-- Two steps for each byte, and one to close the list. -/
theorem reads_skipAfter_list {fuel : Nat} {bytes : List UInt8} (hfuel : 2 * bytes.length < fuel) :
    (skipAfter fuel [.list]).Reads (followingBytes bytes) (.ok ()) := by
  induction bytes generalizing fuel with
  | nil =>
      obtain ⟨fuel, rfl⟩ := Nat.exists_eq_add_one_of_ne_zero (Nat.ne_of_gt hfuel)
      exact .peek rfl <| .expectThen <| reads_skipAfter_nil fuel
  | cons byte bytes ih =>
      rw [List.length_cons] at hfuel
      obtain ⟨fuel, rfl⟩ : ∃ less, fuel = less + 2 := ⟨fuel - 2, by omega⟩
      have hrest : 2 * bytes.length < fuel := by omega
      rw [followingBytes_cons]
      exact .peek rfl <| .expectThen <| reads_skipFrom_byte byte (ih hrest)

theorem length_followingBytes (bytes : List UInt8) :
    2 * bytes.length < (followingBytes bytes).length := by
  induction bytes with
  | nil => exact Nat.zero_lt_one
  | cons byte bytes ih =>
      obtain ⟨d, digits, htext, -⟩ := exists_toList_byte byte
      rw [followingBytes_cons, htext]
      simp only [List.length_cons, List.length_append]
      omega

theorem reads_skipFrom {d : Datum} (hd : isPlainDatum d) {fuel : Nat}
    (hfuel : (writeDatum d).toList.length ≤ fuel) :
    (skipFrom (fuel + 1) []).Reads (writeDatum d).toList (.ok ()) := by
  cases d with
  | flag value =>
      cases value with
      | false =>
          exact .peek rfl <| .last (.peek rfl (reads_word "false")) (reads_skipAfter_nil fuel)
      | true =>
          exact .peek rfl <| .last (.peek rfl (reads_word "true")) (reads_skipAfter_nil fuel)
  | keyword text =>
      rw [toList_writeDatum_keyword]
      have hskip : skipString.Reads ('"' :: (text.toList ++ ['"'])) (.ok ()) := by
        change (pieces >>= fun _ => pure ()).Reads _ _
        exact .last (reads_pieces hd) (.pure ())
      exact .peek rfl <| .last (.peek rfl hskip) (reads_skipAfter_nil fuel)
  | bytes values =>
      cases values with
      | nil =>
          have hpos : 0 < fuel := Nat.lt_of_lt_of_le Nat.two_pos hfuel
          obtain ⟨fuel, rfl⟩ := Nat.exists_eq_add_one_of_ne_zero hpos.ne'
          exact .peek rfl <| .expectThen <| .peek rfl <| .expectThen <| reads_skipAfter_nil fuel
      | cons byte bytes =>
          rw [writeDatum, toList_writeBytes_cons] at hfuel ⊢
          obtain ⟨d, digits, htext, hdigits, -⟩ := exists_toList_byte byte
          have hd : d.isDigit := hdigits d (.head _)
          have hlength := length_followingBytes bytes
          rw [htext, List.length_cons, List.length_append, List.length_cons] at hfuel
          obtain ⟨fuel, rfl⟩ : ∃ less, fuel = less + 2 := ⟨fuel - 2, by omega⟩
          have hrest : 2 * bytes.length < fuel := by omega
          have hskip := reads_skipFrom_byte byte (reads_skipAfter_list hrest)
          rw [htext, List.cons_append] at hskip ⊢
          refine .peek rfl <| .expectThen <| .peek (isBlank_of_isDigit hd) ?_
          have hclose : d ≠ Frame.list.close := by
            rintro rfl
            exact absurd hd (by decide)
          rw [if_neg hclose]
          exact hskip

theorem reads_skipValue {d : Datum} (hd : isPlainDatum d) :
    skipValue.Reads (writeDatum d).toList (.ok ()) := by
  intro rest
  refine reads_skipFrom hd ?_ rest
  rw [List.length_append]
  omega

end Skipping

section Objects

open Gathered

variable {fields : List RecordField} {gathered : Gathered fields} {e : String × Datum}
  {data : List (String × Datum)}

def IsPlainEntry (e : String × Datum) : Prop := e.1.toList.all isPlain ∧ isPlainDatum e.2

theorem IsPlainEntry.of {name : String} {d : Datum} (hname : name.toList.all isPlain)
    (hd : isPlainDatum d) : IsPlainEntry (name, d) :=
  ⟨hname, hd⟩

def entryText (e : String × Datum) : List Char :=
  '"' :: (e.1.toList ++ ['"']) ++ ':' :: (writeDatum e.2).toList

def followingEntries (data : List (String × Datum)) : List Char :=
  (data.flatMap fun e => ',' :: entryText e) ++ ['\x7d']

theorem toList_writeRecord_cons (e : String × Datum) (data : List (String × Datum)) :
    (writeRecord (e :: data)).toList = '\x7b' :: (entryText e ++ followingEntries data) := by
  rw [writeRecord, writeObject, String.toList_append, String.toList_append, List.map_cons,
    List.map_cons, toList_intercalate_cons, List.flatMap_map, List.flatMap_map, followingEntries]
  simp [entryText]

theorem followingEntries_cons (e : String × Datum) (data : List (String × Datum)) :
    followingEntries (e :: data) = ',' :: (entryText e ++ followingEntries data) := by
  rw [followingEntries, List.flatMap_cons, List.append_assoc]
  rfl

theorem reads_entry (he : isPlainDatum e.2) (gathered : Gathered fields) :
    (entry e.1 gathered).Reads (':' :: (writeDatum e.2).toList) (takeEntry gathered e) := by
  induction fields with
  | nil => exact .last (.markThen rfl (reads_skipValue he)) (.pure gathered)
  | cons field fields ih =>
      obtain ⟨value, rest, rfl⟩ := exists_cons gathered
      by_cases hname : field.name = e.1
      · cases value with
        | some value =>
            rw [entry_cons_some hname, takeEntry_cons_some hname]
            exact .throw _ _
        | none =>
            rw [entry_cons_none hname, takeEntry_cons_none hname]
            exact .map (.markThen rfl (reads_value field.codec he)) fun value => .pure _
      · rw [entry_cons_of_ne hname, takeEntry_cons_of_ne hname]
        exact .map (ih rest) fun rest => .pure _

theorem reads_entries {fuel : Nat} (hfuel : data.length < fuel)
    (hplain : ∀ e' ∈ e :: data, IsPlainEntry e') :
    (entries fuel gathered).Reads (entryText e ++ followingEntries data)
      (gather gathered (e :: data)) := by
  induction fuel generalizing e data gathered with
  | zero => nomatch hfuel
  | succ fuel ih =>
      obtain ⟨hname, hdatum⟩ := hplain e (.head _)
      rw [entries, entryText, List.append_assoc, gather_cons]
      refine .andThen (reads_string hname) <| .bind (reads_entry hdatum gathered) fun result _ => ?_
      cases data with
      | nil => exact .peek rfl <| .expectThen <| .pure result
      | cons e' data =>
          rw [followingEntries_cons]
          refine .peek rfl <| .expectThen <| ih (Nat.lt_of_succ_lt_succ hfuel) ?_
          exact fun e'' he'' => hplain e'' (.tail _ he'')

theorem length_lt_length_followingEntries (data : List (String × Datum)) :
    data.length < (followingEntries data).length := by
  induction data with
  | nil => exact Nat.zero_lt_one
  | cons e data ih =>
      rw [followingEntries_cons, List.length_cons, List.length_cons, List.length_append]
      omega

theorem reads_gathered (fields : List RecordField) (hplain : ∀ e ∈ data, IsPlainEntry e) :
    (Json.gathered fields).Reads (writeRecord data).toList (gather (.empty fields) data) := by
  cases data with
  | nil => exact .peek rfl <| .expectThen <| .peek rfl <| .expectThen <| .pure _
  | cons e data =>
      rw [toList_writeRecord_cons, Json.gathered]
      refine .peek rfl <| .expectThen <| .peek rfl fun behind => ?_
      have hfuel : data.length < (entryText e ++ followingEntries data ++ behind).length := by
        have := length_lt_length_followingEntries data
        simp only [List.length_append]
        omega
      exact reads_entries hfuel hplain behind

/-- The text of a record is read as the map of its fields. -/
theorem reads_record (record : Record α) (hplain : ∀ e ∈ data, IsPlainEntry e) :
    (Json.record record).Reads (writeRecord data).toList (record.ofData data) :=
  .map (reads_gathered record.fields hplain) fun _ => reads_ofExcept _

end Objects

end PallasVesta.Json
