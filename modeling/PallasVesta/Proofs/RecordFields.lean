import Mathlib.Data.List.Nodup
import PallasVesta.Data

namespace PallasVesta

namespace Data

variable {α β : Type} {cause : Refusal}

theorem exists_of_bind_eq_ok {first : Except Refusal α} {next : α → Except Refusal β} {result : β}
    (h : first >>= next = .ok result) : ∃ value, first = .ok value ∧ next value = .ok result := by
  cases first with
  | error cause => nomatch h
  | ok value => exact ⟨value, rfl, h⟩

section Codecs

variable {codec : Codec α} {datum : Datum} {value : α}

theorem Codec.admits_of_decode (h : codec.decode datum = .ok value) :
    codec.shape.admits datum = true := by
  rw [decode] at h
  split at h
  · assumption
  · nomatch h

theorem Codec.decode_of_admits (h : codec.shape.admits datum = true) :
    codec.decode datum = codec.parse datum := if_pos h

def Codec.Accepts (codec : Codec α) (value : α) : Prop := ∃ datum, codec.decode datum = .ok value

/-- Whatever is accepted is encoded by the same data again. -/
def Codec.Lawful (codec : Codec α) : Prop :=
  ∀ datum value, codec.decode datum = .ok value → codec.encode value = datum

theorem Codec.Lawful.decode_encode (hcodec : codec.Lawful) (hvalue : codec.Accepts value) :
    codec.decode (codec.encode value) = .ok value := by
  obtain ⟨datum, hdatum⟩ := hvalue
  rw [hcodec datum value hdatum]
  exact hdatum

end Codecs

section Fields

open Gathered

variable {field : RecordField} {fields : List RecordField} {entry : String × Datum}
  {data : List (String × Datum)}

theorem Gathered.exists_cons (gathered : Gathered (field :: fields)) :
    ∃ value rest, gathered = cons value rest :=
  ⟨gathered.1, gathered.2, rfl⟩

theorem takeEntry_cons_of_ne (h : field.name ≠ entry.1) (value : Option field.Value)
    (rest : Gathered fields) :
    takeEntry (cons value rest) entry =
      takeEntry rest entry >>= fun rest => .ok (cons value rest) :=
  if_neg h

theorem takeEntry_cons_none (h : field.name = entry.1) (rest : Gathered fields) :
    takeEntry (cons none rest) entry =
      field.codec.decode entry.2 >>= fun value => .ok (cons (some value) rest) :=
  if_pos h

theorem takeEntry_cons_some (h : field.name = entry.1) (value : field.Value)
    (rest : Gathered fields) :
    takeEntry (cons (some value) rest) entry = .error .malformed :=
  if_pos h

theorem gather_cons (gathered : Gathered fields) :
    gather gathered (entry :: data) = takeEntry gathered entry >>= (gather · data) :=
  List.foldlM_cons

namespace Gathered

def Accepted : {fields : List RecordField} → Gathered fields → Prop
  | [], _ => True
  | field :: _, (value, rest) => (∀ a ∈ value, field.codec.Accepts a) ∧ Accepted rest

theorem accepted_empty (fields : List RecordField) : (empty fields).Accepted := by
  induction fields with
  | nil => trivial
  | cons field fields ih => exact ⟨nofun, ih⟩

/-- The values of the fields that have one of the names. -/
def only (names : List String) : {fields : List RecordField} → Gathered fields → Gathered fields
  | [], gathered => gathered
  | field :: _, (value, rest) => (if field.name ∈ names then value else none, only names rest)

theorem only_cons (names : List String) (value : Option field.Value) (rest : Gathered fields) :
    (cons value rest : Gathered (field :: fields)).only names =
      cons (if field.name ∈ names then value else none) (rest.only names) :=
  rfl

theorem only_nil (gathered : Gathered fields) : gathered.only [] = empty fields := by
  induction fields with
  | nil => rfl
  | cons field fields ih => exact congrArg (cons none) (ih gathered.2)

theorem only_cons_of_forall_ne {name : String} (h : ∀ field ∈ fields, field.name ≠ name)
    (names : List String) (gathered : Gathered fields) :
    gathered.only (name :: names) = gathered.only names := by
  induction fields with
  | nil => rfl
  | cons field fields ih =>
      obtain ⟨value, rest, rfl⟩ := exists_cons gathered
      have hmem : field.name ∈ name :: names ↔ field.name ∈ names := by
        rw [List.mem_cons, or_iff_right (h field (.head _))]
      rw [only_cons, only_cons, if_congr hmem rfl rfl,
        ih fun field hfield => h field (.tail _ hfield)]

theorem entries_cons (value : Option field.Value) (rest : Gathered fields) :
    (cons value rest : Gathered (field :: fields)).entries =
      (value.map fun value => (field.name, field.codec.encode value)).toList ++ rest.entries :=
  rfl

theorem sublist_entries (gathered : Gathered fields) :
    (gathered.entries.map Prod.fst).Sublist (fields.map RecordField.name) := by
  induction fields with
  | nil => exact .slnil
  | cons field fields ih =>
      obtain ⟨value, rest, rfl⟩ := exists_cons gathered
      rw [entries_cons, List.map_append, List.map_cons]
      cases value with
      | none => exact .cons _ (ih rest)
      | some value => exact .cons_cons _ (ih rest)

theorem only_of_forall_mem {names : List String} (gathered : Gathered fields)
    (h : ∀ entry ∈ gathered.entries, entry.1 ∈ names) : gathered.only names = gathered := by
  induction fields with
  | nil => rfl
  | cons field fields ih =>
      obtain ⟨value, rest, rfl⟩ := exists_cons gathered
      rw [entries_cons, List.forall_mem_append] at h
      rw [only_cons, ih rest h.2]
      cases value with
      | none => rw [ite_self]
      | some value => rw [if_pos (h.1 _ (.head _))]

def Unread (name : String) : {fields : List RecordField} → Gathered fields → Prop
  | [], _ => True
  | field :: _, (value, rest) => (field.name = name → value = none) ∧ Unread name rest

theorem unread_empty (name : String) (fields : List RecordField) : (empty fields).Unread name := by
  induction fields with
  | nil => trivial
  | cons field fields ih => exact ⟨fun _ => rfl, ih⟩

end Gathered

theorem of_takeEntry_cons {value : Option field.Value} {rest : Gathered fields}
    {result : Gathered (field :: fields)} (h : takeEntry (cons value rest) entry = .ok result) :
    (field.name = entry.1 ∧ value = none ∧
      ∃ a, field.codec.decode entry.2 = .ok a ∧ result = cons (some a) rest) ∨
    (field.name ≠ entry.1 ∧
      ∃ rest', takeEntry rest entry = .ok rest' ∧ result = cons value rest') := by
  by_cases hname : field.name = entry.1
  · cases value with
    | some value =>
        rw [takeEntry_cons_some hname] at h
        nomatch h
    | none =>
        rw [takeEntry_cons_none hname] at h
        obtain ⟨a, hdecode, hresult⟩ := exists_of_bind_eq_ok h
        exact .inl ⟨hname, rfl, a, hdecode, (Except.ok.inj hresult).symm⟩
  · rw [takeEntry_cons_of_ne hname] at h
    obtain ⟨rest', hrest, hresult⟩ := exists_of_bind_eq_ok h
    exact .inr ⟨hname, rest', hrest, (Except.ok.inj hresult).symm⟩

theorem accepted_of_takeEntry {gathered result : Gathered fields} (hgathered : gathered.Accepted)
    (h : takeEntry gathered entry = .ok result) : result.Accepted := by
  induction fields with
  | nil => trivial
  | cons field fields ih =>
      obtain ⟨value, rest, rfl⟩ := exists_cons gathered
      obtain ⟨-, -, a, hdecode, rfl⟩ | ⟨-, rest', hrest, rfl⟩ := of_takeEntry_cons h
      · exact ⟨fun b hb => ⟨_, Option.some.inj hb ▸ hdecode⟩, hgathered.2⟩
      · exact ⟨hgathered.1, ih hgathered.2 hrest⟩

theorem accepted_of_gather {gathered result : Gathered fields} (hgathered : gathered.Accepted)
    (h : gather gathered data = .ok result) : result.Accepted := by
  induction data generalizing gathered with
  | nil => exact Except.ok.inj h ▸ hgathered
  | cons entry data ih =>
      rw [gather_cons] at h
      obtain ⟨next, hnext, hresult⟩ := exists_of_bind_eq_ok h
      exact ih (accepted_of_takeEntry hgathered hnext) hresult

/-- An entry of what was gathered brings back its own value and nothing else. -/
theorem takeEntry_only (hfields : ∀ field ∈ fields, field.codec.Lawful)
    (hdistinct : (fields.map RecordField.name).Nodup) {gathered : Gathered fields}
    (hgathered : gathered.Accepted) (hentry : entry ∈ gathered.entries) {names : List String}
    (hnames : entry.1 ∉ names) :
    takeEntry (gathered.only names) entry = .ok (gathered.only (entry.1 :: names)) := by
  induction fields with
  | nil => nomatch hentry
  | cons field fields ih =>
      obtain ⟨value, rest, rfl⟩ := exists_cons gathered
      rw [List.map_cons, List.nodup_cons] at hdistinct
      have hother : ∀ other ∈ fields, other.name ≠ field.name := fun other hmem h =>
        hdistinct.1 (List.mem_map.2 ⟨other, hmem, h⟩)
      rw [entries_cons, List.mem_append] at hentry
      obtain hentry | hentry := hentry
      · obtain ⟨value, rfl, rfl⟩ := Option.map_eq_some_iff.1 (Option.mem_toList.1 hentry)
        have hdecode := (hfields field (.head _)).decode_encode (hgathered.1 value rfl)
        rw [only_cons, only_cons, if_neg hnames, takeEntry_cons_none rfl, hdecode, if_pos (.head _),
          only_cons_of_forall_ne hother]
        rfl
      · have hname : field.name ≠ entry.1 := fun h => hdistinct.1 <|
          (sublist_entries rest).subset (List.mem_map.2 ⟨entry, hentry, h.symm⟩)
        have hmem : field.name ∈ entry.1 :: names ↔ field.name ∈ names := by
          rw [List.mem_cons, or_iff_right hname]
        rw [only_cons, only_cons, takeEntry_cons_of_ne hname, if_congr hmem rfl rfl,
          ih (fun field hfield => hfields field (.tail _ hfield)) hdistinct.2 hgathered.2 hentry]
        rfl

theorem gather_only (hfields : ∀ field ∈ fields, field.codec.Lawful)
    (hdistinct : (fields.map RecordField.name).Nodup) {gathered : Gathered fields}
    (hgathered : gathered.Accepted) (hdata : ∀ entry ∈ data, entry ∈ gathered.entries)
    {names : List String} (hnames : ((data.map Prod.fst).reverse ++ names).Nodup) :
    gather (gathered.only names) data =
      .ok (gathered.only ((data.map Prod.fst).reverse ++ names)) := by
  induction data generalizing names with
  | nil => rfl
  | cons entry data ih =>
      rw [List.map_cons, List.reverse_cons, List.append_assoc] at hnames ⊢
      have hnew : entry.1 ∉ names := (List.nodup_cons.1 hnames.of_append_right).1
      rw [gather_cons,
        takeEntry_only hfields hdistinct hgathered (hdata entry (.head _)) hnew]
      exact ih (fun entry hentry => hdata entry (.tail _ hentry)) hnames

theorem gather_of_perm (hfields : ∀ field ∈ fields, field.codec.Lawful)
    (hdistinct : (fields.map RecordField.name).Nodup) {gathered : Gathered fields}
    (hgathered : gathered.Accepted) (hdata : data.Perm gathered.entries) :
    gather (.empty fields) data = .ok gathered := by
  have hnames : (data.map Prod.fst).Nodup :=
    (hdata.map Prod.fst).nodup_iff.2 ((sublist_entries gathered).nodup hdistinct)
  have hreverse : ((data.map Prod.fst).reverse ++ []).Nodup := by
    rwa [List.append_nil, List.nodup_reverse]
  rw [← only_nil gathered,
    gather_only hfields hdistinct hgathered (fun entry => hdata.mem_iff.1) hreverse,
    only_of_forall_mem]
  intro entry hentry
  rw [List.append_nil, List.mem_reverse]
  exact List.mem_map.2 ⟨entry, hdata.mem_iff.2 hentry, rfl⟩

/-- What a field makes of an entry that it has not seen before. -/
def check (fields : List RecordField) (entry : String × Datum) : Except Refusal Unit :=
  match fields.find? (·.name = entry.1) with
  | none => .ok ()
  | some field => (field.codec.decode entry.2).map fun _ => ()

theorem map_takeEntry {gathered : Gathered fields} (h : gathered.Unread entry.1) :
    (takeEntry gathered entry).map (fun _ => ()) = check fields entry := by
  induction fields with
  | nil => rfl
  | cons field fields ih =>
      obtain ⟨value, rest, rfl⟩ := exists_cons gathered
      rw [check]
      by_cases hname : field.name = entry.1
      · obtain rfl : value = none := h.1 hname
        rw [takeEntry_cons_none hname, List.find?_cons_of_pos (by simpa using hname)]
        show _ = (field.codec.decode entry.2).map fun _ => ()
        cases field.codec.decode entry.2 <;> rfl
      · rw [takeEntry_cons_of_ne hname, List.find?_cons_of_neg (by simpa using hname)]
        refine Eq.trans ?_ (ih h.2)
        cases takeEntry rest entry <;> rfl

theorem unread_of_takeEntry {gathered result : Gathered fields} {name : String}
    (hgathered : gathered.Unread name) (hname : name ≠ entry.1)
    (h : takeEntry gathered entry = .ok result) : result.Unread name := by
  induction fields with
  | nil => trivial
  | cons field fields ih =>
      obtain ⟨value, rest, rfl⟩ := exists_cons gathered
      obtain ⟨hfield, -, a, -, rfl⟩ | ⟨-, rest', hrest, rfl⟩ := of_takeEntry_cons h
      · exact ⟨fun hsame => absurd (hsame.symm.trans hfield) hname, hgathered.2⟩
      · exact ⟨hgathered.1, ih hgathered.2 hrest⟩

theorem gather_eq_error {gathered : Gathered fields} (hnames : (data.map Prod.fst).Nodup)
    (hunread : ∀ entry ∈ data, gathered.Unread entry.1)
    (hall : ∀ entry ∈ data, check fields entry = .ok () ∨ check fields entry = .error cause)
    (hrefused : ∃ entry ∈ data, check fields entry = .error cause) :
    gather gathered data = .error cause := by
  induction data generalizing gathered with
  | nil =>
      obtain ⟨entry, hentry, -⟩ := hrefused
      nomatch hentry
  | cons entry data ih =>
      rw [List.map_cons, List.nodup_cons] at hnames
      have hentry := map_takeEntry (hunread entry (.head _))
      rw [gather_cons]
      cases htake : takeEntry gathered entry with
      | error other =>
          rw [htake] at hentry
          obtain hok | herror := hall entry (.head _)
          · nomatch hentry.trans hok
          · exact congrArg Except.error (Except.error.inj (hentry.trans herror))
      | ok result =>
          -- An entry that is taken is not the one that is refused, which stands behind it then.
          rw [htake] at hentry
          refine ih hnames.2 (fun later hlater => ?_)
            (fun later hlater => hall later (.tail _ hlater)) ?_
          · have hname : later.1 ≠ entry.1 := fun h =>
              hnames.1 (List.mem_map.2 ⟨later, hlater, h⟩)
            exact unread_of_takeEntry (hunread later (.tail _ hlater)) hname htake
          · obtain ⟨refused, hmem, herror⟩ := hrefused
            cases hmem with
            | head => nomatch hentry.trans herror
            | tail _ hmem => exact ⟨refused, hmem, herror⟩

end Fields

namespace Record

variable {record : Record α} {data : List (String × Datum)}

structure Lawful (record : Record α) : Prop where
  distinct : (record.fields.map RecordField.name).Nodup
  codecs : ∀ field ∈ record.fields, field.codec.Lawful
  join_split : ∀ value, record.join (record.split value) = .ok value

theorem Lawful.ofData_of_perm (hrecord : record.Lawful) {gathered : Gathered record.fields}
    (hgathered : gathered.Accepted) (hdata : data.Perm gathered.entries) :
    record.ofData data = record.join gathered := by
  rw [ofData, gather_of_perm hrecord.codecs hrecord.distinct hgathered hdata]
  rfl

theorem Lawful.ofData_toData (hrecord : record.Lawful) {value : α}
    (hvalue : (record.split value).Accepted) (hdata : data.Perm (record.toData value)) :
    record.ofData data = .ok value := by
  rw [hrecord.ofData_of_perm hvalue hdata, hrecord.join_split]

theorem exists_of_ofData {value : α} (h : record.ofData data = .ok value) :
    ∃ gathered : Gathered record.fields, gathered.Accepted ∧ record.join gathered = .ok value := by
  obtain ⟨gathered, hgather, hjoin⟩ := exists_of_bind_eq_ok h
  exact ⟨gathered, accepted_of_gather (Gathered.accepted_empty _) hgather, hjoin⟩

/-- Data in any order is refused for one entry that is, where nothing else can be wrong. -/
theorem ofData_eq_error {written : List (String × Datum)} (hdata : data.Perm written)
    (hnames : (written.map Prod.fst).Nodup)
    (hall : ∀ entry ∈ written, check record.fields entry = .ok () ∨
      check record.fields entry = .error cause)
    (hrefused : ∃ entry ∈ written, check record.fields entry = .error cause) :
    record.ofData data = .error cause := by
  have hunread : ∀ entry ∈ data, (Gathered.empty record.fields).Unread entry.1 := fun entry _ =>
    Gathered.unread_empty entry.1 record.fields
  simp only [← hdata.mem_iff] at hall hrefused
  rw [ofData, gather_eq_error ((hdata.map Prod.fst).nodup_iff.2 hnames) hunread hall hrefused]
  rfl

end Record

theorem lawful_flagCodec : flagCodec.Lawful := by
  rintro (_ | _ | _) value h
  · exact congrArg Datum.flag (Except.ok.inj h).symm
  · nomatch h
  · nomatch h

theorem accepts_flagCodec (value : Bool) : flagCodec.Accepts value := ⟨.flag value, rfl⟩

end Data

end PallasVesta
