import PallasVesta.Proofs.ReaderResults

namespace PallasVesta.Json

open Data

variable {α β : Type}

theorem run_bind_of_ok {reader : Reader α} {next : α → Reader β} {text rest : List Char}
    {value : α} (h : StateT.run reader text = .ok (value, rest)) :
    StateT.run (reader >>= next) text = StateT.run (next value) rest := by
  rw [StateT.run_bind, h]
  rfl

/-- With the text before it the input is read with this outcome, and what stands behind the text is
left. -/
def Reader.Reads (reader : Reader α) (text : List Char) (outcome : Except Refusal α) : Prop :=
  ∀ rest, StateT.run reader (text ++ rest) = outcome.map (·, rest)

namespace Reader.Reads

theorem pure (value : α) : Reads (Pure.pure value) [] (.ok value) := fun _ => rfl

theorem throw (cause : Refusal) (text : List Char) :
    Reads (MonadExcept.throw cause : Reader α) text (.error cause) := fun _ => rfl

variable {reader : Reader α} {next : α → Reader β} {text more : List Char}

theorem bind {first : Except Refusal α} {outcome : α → Except Refusal β}
    (hfirst : reader.Reads text first)
    (hnext : ∀ value, first = .ok value → (next value).Reads more (outcome value)) :
    Reads (reader >>= next) (text ++ more) (first >>= outcome) := by
  intro rest
  rw [StateT.run_bind, List.append_assoc, hfirst]
  cases first with
  | error cause => rfl
  | ok value => exact hnext value rfl rest

theorem andThen {value : α} {outcome : Except Refusal β} (hfirst : reader.Reads text (.ok value))
    (hnext : (next value).Reads more outcome) : Reads (reader >>= next) (text ++ more) outcome := by
  intro rest
  rw [List.append_assoc, run_bind_of_ok (hfirst _)]
  exact hnext rest

theorem stop {cause : Refusal} (hfirst : reader.Reads text (.error cause)) :
    Reads (reader >>= next) text (.error cause) := by
  intro rest
  rw [StateT.run_bind, hfirst]
  rfl

theorem last {value : α} {outcome : Except Refusal β} (hfirst : reader.Reads text (.ok value))
    (hnext : (next value).Reads [] outcome) : Reads (reader >>= next) text outcome :=
  text.append_nil ▸ andThen hfirst hnext

theorem map {first : Except Refusal α} {outcome : α → Except Refusal β}
    (hfirst : reader.Reads text first) (hnext : ∀ value, (next value).Reads [] (outcome value)) :
    Reads (reader >>= next) text (first >>= outcome) :=
  text.append_nil ▸ bind hfirst fun value _ => hnext value

theorem run {outcome : Except Refusal α} {text : String} (h : reader.Reads text.toList outcome) :
    reader.run text = outcome := by
  have hrun := h []
  rw [List.append_nil] at hrun
  rw [Reader.run, hrun]
  cases outcome with
  | error cause => rfl
  | ok value => rfl

end Reader.Reads

section Marks

variable {c : Char}

theorem run_skipBlank (hc : isBlank c = false) (text : List Char) :
    StateT.run skipBlank (c :: text) = .ok ((), c :: text) := by
  show Except.ok ((), (c :: text).dropWhile isBlank) = _
  rw [List.dropWhile_cons_of_neg (by simp [hc])]

theorem reads_expect (c : Char) : (expect c).Reads [c] (.ok ()) := by
  intro rest
  show StateT.run (if c = c then _ else _) rest = _
  rw [if_pos rfl]
  rfl

theorem Reader.Reads.expectThen {next : Unit → Reader α} {text : List Char}
    {outcome : Except Refusal α} (hnext : (next ()).Reads text outcome) :
    Reads (expect c >>= next) (c :: text) outcome :=
  .andThen (reads_expect c) hnext

theorem reads_expect_of_ne {c d : Char} (h : d ≠ c) (text : List Char) :
    (expect c).Reads (d :: text) (.error .malformed) := by
  intro rest
  show StateT.run (if d = c then _ else _) (text ++ rest) = _
  rw [if_neg h]
  rfl

theorem reads_mark (hc : isBlank c = false) : (mark c).Reads [c] (.ok ()) := by
  intro rest
  rw [mark, List.singleton_append, run_bind_of_ok (run_skipBlank hc _)]
  exact reads_expect c rest

theorem Reader.Reads.markThen {next : Unit → Reader α} {text : List Char}
    {outcome : Except Refusal α} (hc : isBlank c = false) (hnext : (next ()).Reads text outcome) :
    Reads (mark c >>= next) (c :: text) outcome :=
  .andThen (reads_mark hc) hnext

theorem reads_mark_of_ne {c d : Char} (hd : isBlank d = false) (h : d ≠ c) (text : List Char) :
    (mark c).Reads (d :: text) (.error .malformed) := by
  intro rest
  rw [mark, List.cons_append, run_bind_of_ok (run_skipBlank hd _)]
  exact reads_expect_of_ne h text rest

theorem run_peek (hc : isBlank c = false) (text : List Char) :
    StateT.run peek (c :: text) = .ok (c, c :: text) := by
  rw [peek, run_bind_of_ok (run_skipBlank hc _)]
  rfl

theorem Reader.Reads.peek {next : Char → Reader α} {text : List Char} {outcome : Except Refusal α}
    (hc : isBlank c = false) (hnext : (next c).Reads (c :: text) outcome) :
    Reads (Json.peek >>= next) (c :: text) outcome := by
  intro rest
  rw [List.cons_append, run_bind_of_ok (run_peek hc _)]
  exact hnext rest

theorem reads_word (text : String) : (word text).Reads text.toList (.ok ()) := by
  rw [word]
  induction text.toList with
  | nil => exact .pure ()
  | cons c text ih => exact .andThen (reads_expect c) ih

theorem reads_bool (flag : Bool) : bool.Reads (boolText flag).toList (.ok flag) := by
  cases flag with
  | false => exact .peek rfl (.last (reads_word "false") (.pure false))
  | true => exact .peek rfl (.last (reads_word "true") (.pure true))

end Marks

section Bytes

theorem run_digits {digits : List Char} (hdigits : ∀ c ∈ digits, c.isDigit) {c : Char}
    (hc : c.isDigit = false) (rest : List Char) :
    StateT.run Json.digits (digits ++ c :: rest) = .ok (digits, c :: rest) := by
  show Except.ok ((digits ++ c :: rest).takeWhile Char.isDigit,
    (digits ++ c :: rest).dropWhile Char.isDigit) = _
  rw [List.takeWhile_append_of_pos hdigits, List.dropWhile_append_of_pos hdigits,
    List.takeWhile_cons_of_neg (by simp [hc]), List.dropWhile_cons_of_neg (by simp [hc]),
    List.append_nil]

theorem isBlank_of_isDigit {c : Char} (hc : c.isDigit) : isBlank c = false := by
  rw [← Bool.not_eq_true]
  intro hblank
  simp only [isBlank, Bool.or_eq_true, beq_iff_eq, or_assoc] at hblank
  rcases hblank with rfl | rfl | rfl | rfl <;> exact absurd hc (by decide)

theorem eq_nil_of_toDigits {n : Nat} {digits : List Char}
    (h : Nat.toDigits 10 n = '0' :: digits) : digits = [] := by
  induction n using Nat.strongRecOn generalizing digits with
  | _ n ih =>
      rw [Nat.toDigits_eq_if (by decide)] at h
      split at h
      · exact (List.cons.inj h).2.symm
      · cases hquotient : Nat.toDigits 10 (n / 10) with
        | nil => exact absurd hquotient Nat.toDigits_ne_nil
        | cons d digits =>
            rw [hquotient, List.cons_append] at h
            obtain ⟨rfl, -⟩ := List.cons.inj h
            have hnil := ih (n / 10) (by omega) hquotient
            have hvalue := Nat.ofDigitChars_ten_toDigits (n := n / 10)
            rw [hquotient, hnil] at hvalue
            have hzero : n / 10 = 0 := hvalue.symm
            omega

theorem exists_toList_byte (byte : UInt8) :
    ∃ d digits, (toString byte.toNat).toList = d :: digits ∧ (∀ c ∈ d :: digits, c.isDigit) ∧
      (d = '0' → digits = []) ∧
      (d :: digits).foldl (fun value c => 10 * value + (c.toNat - '0'.toNat)) 0 = byte.toNat := by
  have hdigits : ∀ c ∈ Nat.toDigits 10 byte.toNat, c.isDigit := fun c hc =>
    Nat.isDigit_of_mem_toDigits (by decide) (by decide) hc
  have hvalue : Nat.ofDigitChars 10 (Nat.toDigits 10 byte.toNat) 0 = byte.toNat :=
    Nat.ofDigitChars_ten_toDigits
  rw [Nat.ofDigitChars_eq_foldl] at hvalue
  rw [Nat.toString_eq_repr, Nat.toList_repr]
  cases htext : Nat.toDigits 10 byte.toNat with
  | nil => exact absurd htext Nat.toDigits_ne_nil
  | cons d digits =>
      rw [htext] at hdigits hvalue
      exact ⟨d, digits, rfl, hdigits, fun hd => eq_nil_of_toDigits (hd ▸ htext), hvalue⟩

theorem run_byte (byte : UInt8) {c : Char} (hc : c.isDigit = false) (rest : List Char) :
    StateT.run Json.byte ((toString byte.toNat).toList ++ c :: rest) = .ok (byte, c :: rest) := by
  obtain ⟨d, digits, htext, hdigits, hzero, hvalue⟩ := exists_toList_byte byte
  have hrun := run_digits hdigits hc rest
  have hblank : isBlank d = false := isBlank_of_isDigit (hdigits d (.head _))
  rw [List.cons_append] at hrun
  rw [htext, Json.byte, List.cons_append, run_bind_of_ok (run_skipBlank hblank _),
    run_bind_of_ok hrun]
  split
  · next h => nomatch h
  · next h =>
      obtain ⟨rfl, rfl⟩ := List.cons.inj h
      nomatch hzero rfl
  · rw [hvalue, if_pos byte.toNat_lt]
    show Except.ok (UInt8.ofNat byte.toNat, c :: rest) = _
    rw [UInt8.ofNat_toNat]

theorem toList_intercalate_cons (text : String) (texts : List String) :
    (",".intercalate (text :: texts)).toList =
      text.toList ++ texts.flatMap fun text => ',' :: text.toList := by
  induction texts generalizing text with
  | nil => rw [String.intercalate_singleton, List.flatMap_nil, List.append_nil]
  | cons other texts ih =>
      rw [String.intercalate_cons_cons, String.toList_append, String.toList_append, ih other,
        List.flatMap_cons]
      simp

def followingBytes (bytes : List UInt8) : List Char :=
  (bytes.flatMap fun byte => ',' :: (toString byte.toNat).toList) ++ [']']

theorem followingBytes_cons (byte : UInt8) (bytes : List UInt8) :
    followingBytes (byte :: bytes) =
      ',' :: ((toString byte.toNat).toList ++ followingBytes bytes) := by
  rw [followingBytes, List.flatMap_cons, List.append_assoc]
  rfl

theorem toList_writeBytes_cons (byte : UInt8) (bytes : List UInt8) :
    (writeBytes (byte :: bytes)).toList =
      '[' :: ((toString byte.toNat).toList ++ followingBytes bytes) := by
  rw [writeBytes, String.toList_append, String.toList_append, List.map_cons,
    toList_intercalate_cons, List.flatMap_map, followingBytes]
  simp

/-- A list of bytes is read if it is as long as it has to be. -/
def exactly (n : Nat) (bytes : List UInt8) : Except Refusal (List UInt8) :=
  if bytes.length = n then .ok bytes else .error .malformed

theorem exactly_cons (n : Nat) (byte : UInt8) (bytes : List UInt8) :
    exactly (n + 1) (byte :: bytes) = exactly n bytes >>= fun bytes => .ok (byte :: bytes) := by
  simp only [exactly, List.length_cons, Nat.add_left_inj]
  split <;> rfl

theorem isDigit_of_comma_or_bracket {c : Char} (hc : c = ',' ∨ c = ']') : c.isDigit = false := by
  rcases hc with rfl | rfl <;> rfl

/-- In a list a byte ends at a comma or at the bracket. -/
theorem Reader.Reads.beforeBytes {reader : Reader α} {next : α → Reader β} {text : List Char}
    {value : α} {bytes : List UInt8} {outcome : Except Refusal β}
    (hreader : ∀ c rest, c = ',' ∨ c = ']' →
      StateT.run reader (text ++ c :: rest) = .ok (value, c :: rest))
    (hnext : (next value).Reads (followingBytes bytes) outcome) :
    Reads (reader >>= next) (text ++ followingBytes bytes) outcome := by
  intro rest
  have hrun : StateT.run reader (text ++ (followingBytes bytes ++ rest)) =
      .ok (value, followingBytes bytes ++ rest) := by
    cases bytes with
    | nil => exact hreader ']' rest (.inr rfl)
    | cons byte bytes => exact hreader ',' _ (.inl rfl)
  rw [List.append_assoc, run_bind_of_ok hrun]
  exact hnext rest

theorem Reader.Reads.byteThen {next : UInt8 → Reader α} {outcome : Except Refusal α} {byte : UInt8}
    {bytes : List UInt8} (hnext : (next byte).Reads (followingBytes bytes) outcome) :
    Reads (Json.byte >>= next) ((toString byte.toNat).toList ++ followingBytes bytes) outcome :=
  .beforeBytes (fun _ rest hc => run_byte byte (isDigit_of_comma_or_bracket hc) rest) hnext

theorem reads_moreBytes (n : Nat) (bytes : List UInt8) :
    (moreBytes n).Reads (followingBytes bytes) (exactly n bytes) := by
  induction n generalizing bytes with
  | zero =>
      cases bytes with
      | nil => exact .markThen rfl (.pure [])
      | cons byte bytes => exact .stop (reads_mark_of_ne rfl (by decide) _)
  | succ n ih =>
      cases bytes with
      | nil => exact .stop (reads_mark_of_ne rfl (by decide) _)
      | cons byte bytes =>
          rw [exactly_cons, followingBytes_cons, moreBytes]
          exact .markThen rfl <| .byteThen <| .map (ih bytes) fun _ => .pure _

theorem reads_bytes (n : Nat) (bytes : List UInt8) :
    (Json.bytes n).Reads (writeBytes bytes).toList (exactly (n + 1) bytes) := by
  cases bytes with
  | nil =>
      show (Json.bytes n).Reads ['[', ']'] (.error .malformed)
      rw [Json.bytes]
      exact .markThen rfl (.stop fun _ => rfl)
  | cons byte bytes =>
      rw [toList_writeBytes_cons, exactly_cons, Json.bytes]
      exact .markThen rfl <| .byteThen <| .map (reads_moreBytes n bytes) fun _ => .pure _

end Bytes

section Strings

/-- A character that stands for itself within quotes. -/
def isPlain (c : Char) : Bool := decide (' ' ≤ c) && c != '"' && c != '\\'

theorem pieces?_plain {text : List Char} (htext : ∀ c ∈ text, isPlain c) (rest : List Char) :
    pieces? (text ++ '"' :: rest) = some (text.map .char, rest) := by
  induction text with
  | nil => rfl
  | cons c text ih =>
      have hc := htext c (.head _)
      simp only [isPlain, Bool.and_eq_true, decide_eq_true_eq, bne_iff_ne] at hc
      obtain ⟨⟨hspace, hquote⟩, hslash⟩ := hc
      rw [List.cons_append, pieces?, ih fun c hc => htext c (.tail _ hc)]
      · rw [guard, if_pos ⟨hspace, hslash⟩]
        rfl
      · exact hquote
      · exact fun _ _ _ _ _ h _ => hslash h
      · exact fun _ _ h _ => hslash h

theorem join?_plain (text : List Char) : join? (text.map .char) = some text := by
  induction text with
  | nil => rfl
  | cons c text ih =>
      rw [List.map_cons, join?, ih]
      rfl

theorem reads_pieces {text : List Char} (htext : text.all isPlain) :
    pieces.Reads ('"' :: (text ++ ['"'])) (.ok (text.map .char)) := by
  refine .markThen rfl fun rest => ?_
  rw [List.append_assoc, run_bind_of_ok rfl, List.singleton_append,
    pieces?_plain (List.all_eq_true.1 htext)]
  rfl

theorem reads_string {text : String} (htext : text.toList.all isPlain) :
    string.Reads ('"' :: (text.toList ++ ['"'])) (.ok text) := by
  refine .last (reads_pieces htext) fun rest => ?_
  rw [join?_plain]
  show Except.ok (String.ofList text.toList, rest) = .ok (text, rest)
  rw [String.ofList_toList]

end Strings

section Data

def isPlainDatum : Datum → Bool
  | .keyword text => text.toList.all isPlain
  | _ => true

theorem toList_writeDatum_keyword (text : String) :
    (writeDatum (.keyword text)).toList = '"' :: (text.toList ++ ['"']) := by
  rw [writeDatum, String.toList_append, String.toList_append]
  rfl

theorem reads_keyword {text : String} (htext : text.toList.all isPlain) :
    keyword.Reads (writeDatum (.keyword text)).toList (.ok text) := by
  rw [toList_writeDatum_keyword]
  exact .peek rfl (reads_string htext)

theorem exists_toList_writeBytes (bytes : List UInt8) :
    ∃ text, (writeBytes bytes).toList = '[' :: text := by
  cases bytes with
  | nil => exact ⟨[']'], rfl⟩
  | cons byte bytes => exact ⟨_, toList_writeBytes_cons byte bytes⟩

theorem reads_string_of_ne {c : Char} (hc : isBlank c = false) (h : c ≠ '"') (text : List Char) :
    string.Reads (c :: text) (.error .malformed) :=
  .stop (.stop (reads_mark_of_ne hc h text))

theorem reads_datum (shape : Shape) {d : Datum} (hd : isPlainDatum d) :
    (datum shape).Reads (writeDatum d).toList
      (if shape.admits d then .ok d else .error .malformed) := by
  cases shape with
  | flag =>
      cases d with
      | flag value => exact .last (reads_bool value) (.pure _)
      | keyword text =>
          rw [toList_writeDatum_keyword]
          exact .stop (.peek rfl (.throw _ _))
      | bytes values =>
          obtain ⟨text, htext⟩ := exists_toList_writeBytes values
          rw [writeDatum, htext]
          exact .stop (.peek rfl (.throw _ _))
  | keyword =>
      cases d with
      | flag value => cases value <;> exact .stop (.peek rfl (reads_string_of_ne rfl (by decide) _))
      | keyword text => exact .last (reads_keyword hd) (.pure _)
      | bytes values =>
          obtain ⟨text, htext⟩ := exists_toList_writeBytes values
          rw [writeDatum, htext]
          exact .stop (.peek rfl (reads_string_of_ne rfl (by decide) _))
  | bytes n =>
      cases d with
      | flag value => cases value <;> exact .stop (.stop (reads_mark_of_ne rfl (by decide) _))
      | keyword text =>
          rw [toList_writeDatum_keyword]
          exact .stop (.stop (reads_mark_of_ne rfl (by decide) _))
      | bytes values =>
          have hbytes := reads_bytes n values
          rw [exactly] at hbytes
          have hadmits : (Shape.bytes n).admits (.bytes values) = true ↔ values.length = n + 1 :=
            beq_iff_eq
          rw [if_congr hadmits rfl rfl]
          by_cases hlength : values.length = n + 1
          · rw [if_pos hlength] at hbytes ⊢
            exact .last hbytes (.pure _)
          · rw [if_neg hlength] at hbytes ⊢
            exact .stop hbytes

theorem reads_ofExcept (outcome : Except Refusal α) :
    (ofExcept outcome : Reader α).Reads [] outcome := by
  cases outcome with
  | error cause => exact .throw _ _
  | ok value => exact .pure value

/-- The text of a datum is read as the datum is decoded. -/
theorem reads_value (codec : Codec α) {d : Datum} (hd : isPlainDatum d) :
    (value codec).Reads (writeDatum d).toList (codec.decode d) := by
  have hread := reads_datum codec.shape hd
  rw [Codec.decode]
  by_cases hadmits : codec.shape.admits d = true
  · rw [if_pos hadmits] at hread ⊢
    exact .last hread (reads_ofExcept _)
  · rw [if_neg hadmits] at hread ⊢
    exact .stop hread

end Data

end PallasVesta.Json
