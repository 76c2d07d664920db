import PallasVesta.Proofs.DecimalTexts
import PallasVesta.Trace.Record

namespace PallasVesta

section Splitting

/-- A text is cut in one way where a class of characters ends. -/
theorem append_inj_of_class {P : Char → Bool} {front front' back back' : List Char}
    (hfront : ∀ c ∈ front, P c) (hfront' : ∀ c ∈ front', P c)
    (hback : ∀ c ∈ back.head?, P c = false) (hback' : ∀ c ∈ back'.head?, P c = false)
    (h : front ++ back = front' ++ back') : front = front' ∧ back = back' := by
  have hstop {text : List Char} (htext : ∀ c ∈ text.head?, P c = false) :
      text.takeWhile P = [] := by
    cases text with
    | nil => rfl
    | cons c text => exact List.takeWhile_cons_of_neg (by simp [htext c rfl])
  have htake := congrArg (List.takeWhile P) h
  rw [List.takeWhile_append_of_pos hfront, List.takeWhile_append_of_pos hfront', hstop hback,
    hstop hback', List.append_nil, List.append_nil] at htake
  rw [htake] at h
  exact ⟨htake, List.append_cancel_left h⟩

theorem append_cons_inj_of_mark {mark : Char} {front front' back back' : List Char}
    (hfront : mark ∉ front) (hfront' : mark ∉ front')
    (h : front ++ mark :: back = front' ++ mark :: back') : front = front' ∧ back = back' := by
  have hclass {text : List Char} (htext : mark ∉ text) : ∀ c ∈ text, (c != mark) = true := by
    intro c hc
    rw [bne_iff_ne]
    rintro rfl
    exact htext hc
  have hmark : ∀ text : List Char, ∀ c ∈ (mark :: text).head?, (c != mark) = false := by simp
  obtain ⟨hfront, hback⟩ :=
    append_inj_of_class (hclass hfront) (hclass hfront') (hmark back) (hmark back') h
  exact ⟨hfront, (List.cons.inj hback).2⟩

end Splitting

section Digits

variable {base : Nat}

theorem digitChar_inj {d e : Nat} (hd : d < 16) (he : e < 16) (h : d.digitChar = e.digitChar) :
    d = e := by
  have hall : ∀ d < 16, ∀ e < 16, d.digitChar = e.digitChar → d = e := by decide
  exact hall d hd e he h

theorem exists_of_mem_toDigits (hbase : 1 < base) {n : Nat} {c : Char}
    (hc : c ∈ Nat.toDigits base n) : ∃ d < base, c = d.digitChar := by
  induction n using Nat.strongRecOn with
  | _ n ih =>
      rw [Nat.toDigits_eq_if hbase] at hc
      split at hc
      · next hlt => exact ⟨n, hlt, List.mem_singleton.1 hc⟩
      · next hle =>
          rcases List.mem_append.1 hc with hc | hc
          · exact ih _ (Nat.div_lt_self (by omega) hbase) hc
          · exact ⟨n % base, Nat.mod_lt _ (by omega), List.mem_singleton.1 hc⟩

theorem toDigits_injective (hbase : 1 < base) (hdigits : base ≤ 16) :
    Function.Injective (Nat.toDigits base) := by
  have hmod (n : Nat) : n % base < 16 := Nat.lt_of_lt_of_le (Nat.mod_lt n (by omega)) hdigits
  intro n
  induction n using Nat.strongRecOn with
  | _ n ih =>
      intro m h
      -- Of two numerals of one length both are a single digit, or both have one before the last.
      rw [Nat.toDigits_eq_if hbase, Nat.toDigits_eq_if (n := m) hbase] at h
      by_cases hn : n < base <;> by_cases hm : m < base
      · rw [if_pos hn, if_pos hm] at h
        exact digitChar_inj (by omega) (by omega) (List.singleton_inj.1 h)
      · rw [if_pos hn, if_neg hm] at h
        simpa using congrArg List.length h
      · rw [if_neg hn, if_pos hm] at h
        simpa using congrArg List.length h
      · rw [if_neg hn, if_neg hm] at h
        obtain ⟨hquotient, hlast⟩ := List.append_inj' h rfl
        have hdiv := ih _ (Nat.div_lt_self (by omega) hbase) hquotient
        have hdigit := digitChar_inj (hmod n) (hmod m) (List.singleton_inj.1 hlast)
        rw [← Nat.div_add_mod n base, ← Nat.div_add_mod m base, hdiv, hdigit]

theorem length_hexDigits (value width : Nat) : (hexDigits value width).length = width := by
  induction width generalizing value with
  | zero => rfl
  | succ width ih => rw [hexDigits, List.length_append, ih, List.length_singleton]

theorem hexDigits_inj {a b width : Nat} (ha : a < 16 ^ width) (hb : b < 16 ^ width)
    (h : hexDigits a width = hexDigits b width) : a = b := by
  induction width generalizing a b with
  | zero => omega
  | succ width ih =>
      rw [hexDigits, hexDigits] at h
      obtain ⟨hquotient, hlast⟩ := List.append_inj' h rfl
      rw [pow_succ] at ha hb
      have hdiv := ih (by omega) (by omega) hquotient
      have hdigit := digitChar_inj (by omega) (by omega) (List.singleton_inj.1 hlast)
      omega

end Digits

def EndsNumber (rest : List Char) : Prop := ∀ c ∈ rest.head?, c.isDigit = false

theorem EndsNumber.cons {c : Char} (hc : c.isDigit = false) (rest : List Char) :
    EndsNumber (c :: rest) := by
  intro d hd
  rwa [← Option.some.inj hd]

/-- With any texts behind them, the texts of two values are the same only if the values are, and
then they end at one place. -/
def TellsApart {α : Type} (write : α → List Char) (a b : α) : Prop :=
  ∀ ⦃s t : List Char⦄, EndsNumber s → EndsNumber t → write a ++ s = write b ++ t → a = b ∧ s = t

section Values

theorem tellsApart_toDigits (m n : Nat) : TellsApart (Nat.toDigits 10) m n := by
  intro s t hs ht h
  have hdigits (n : Nat) : ∀ c ∈ Nat.toDigits 10 n, c.isDigit = true := fun c hc =>
    Nat.isDigit_of_mem_toDigits (by decide) (by decide) hc
  obtain ⟨hnumber, hrest⟩ := append_inj_of_class (hdigits m) (hdigits n) hs ht h
  exact ⟨toDigits_injective (by decide) (by decide) hnumber, hrest⟩

theorem toList_toString_int (n : Int) : (toString n).toList =
    if 0 ≤ n then Nat.toDigits 10 n.toNat else '-' :: Nat.toDigits 10 (-n).toNat := by
  rw [Int.toString_eq_repr, Int.repr_eq_if]
  split
  · rw [Nat.toList_repr]
  · rw [String.toList_append, Nat.toList_repr]
    rfl

theorem toDigits_append_ne_cons {c : Char} (hc : c.isDigit = false) (n : Nat) (s t : List Char) :
    Nat.toDigits 10 n ++ s ≠ c :: t := by
  intro h
  cases hdigits : Nat.toDigits 10 n with
  | nil => exact Nat.toDigits_ne_nil hdigits
  | cons d digits =>
      rw [hdigits] at h
      obtain ⟨rfl, -⟩ := List.cons.inj h
      have hdigit : d.isDigit = true :=
        Nat.isDigit_of_mem_toDigits (by decide) (by decide) (hdigits ▸ List.mem_cons_self)
      rw [hc] at hdigit
      exact Bool.false_ne_true hdigit

theorem tellsApart_int (m n : Int) : TellsApart (fun n : Int => (toString n).toList) m n := by
  intro s t hs ht h
  beta_reduce at h
  rw [toList_toString_int, toList_toString_int] at h
  by_cases hm : 0 ≤ m <;> by_cases hn : 0 ≤ n
  · rw [if_pos hm, if_pos hn] at h
    obtain ⟨hnumber, hrest⟩ := tellsApart_toDigits _ _ hs ht h
    exact ⟨by omega, hrest⟩
  · rw [if_pos hm, if_neg hn] at h
    exact absurd h (toDigits_append_ne_cons rfl _ _ _)
  · rw [if_neg hm, if_pos hn] at h
    exact absurd h.symm (toDigits_append_ne_cons rfl _ _ _)
  · rw [if_neg hm, if_neg hn] at h
    obtain ⟨hnumber, hrest⟩ := tellsApart_toDigits _ _ hs ht (List.cons.inj h).2
    exact ⟨by omega, hrest⟩

theorem tellsApart_flag (a b : Bool) : TellsApart (fun flag => (boolText flag).toList) a b := by
  intro s t hs ht h
  cases a with
  | false =>
      cases b with
      | false => exact ⟨rfl, List.append_cancel_left h⟩
      | true => exact absurd (List.cons.inj h).1 (by decide)
  | true =>
      cases b with
      | false => exact absurd (List.cons.inj h).1 (by decide)
      | true => exact ⟨rfl, List.append_cancel_left h⟩

theorem tellsApart_integer (a b : UInt256) :
    TellsApart (fun a : UInt256 => a.debugText.toList) a b := by
  intro s t hs ht h
  simp only [UInt256.debugText, UInt256.toHex, String.toList_append, String.toList_ofList,
    List.append_assoc] at h
  obtain ⟨hdigits, hrest⟩ := List.append_inj (List.append_cancel_left h)
    ((length_hexDigits _ _).trans (length_hexDigits _ _).symm)
  exact ⟨UInt256.toNat_inj.1 (hexDigits_inj a.toNat_lt b.toNat_lt hdigits),
    List.append_cancel_left hrest⟩

theorem tellsApart_element {M : FieldParams} (a b : FieldElement M) :
    TellsApart (fun a : FieldElement M => a.debugText.toList) a b := by
  intro s t hs ht h
  have hend (rest : List Char) : EndsNumber (')' :: rest) := .cons rfl rest
  simp only [FieldElement.debugText, FieldElement.toDecimal, String.toList_append,
    UInt256.toList_toDecimal, List.append_assoc] at h
  obtain ⟨hnumber, hrest⟩ := tellsApart_toDigits _ _ (hend s) (hend t)
    (List.append_cancel_left (List.append_cancel_left h))
  exact ⟨FieldElement.ext_value hnumber, (List.cons.inj hrest).2⟩

theorem toList_debugText_point {C : CurveParams} (p : JacobianPoint C) :
    (p.debugText .inline).toList = "ProjectivePoint \x7b x: ".toList ++ (p.x.debugText.toList ++
      ',' :: (" y: ".toList ++ (p.y.debugText.toList ++
        ',' :: (" z: ".toList ++ (p.z.debugText.toList ++ [' ', '\x7d']))))) := by
  simp [JacobianPoint.debugText, Layout.record]

theorem tellsApart_point {C : CurveParams} (p q : JacobianPoint C) :
    TellsApart (fun p : JacobianPoint C => (p.debugText .inline).toList) p q := by
  intro s t hs ht h
  simp only [toList_debugText_point, List.append_assoc, List.cons_append, List.nil_append] at h
  obtain ⟨hx, h⟩ :=
    tellsApart_element p.x q.x (.cons rfl _) (.cons rfl _) (List.append_cancel_left h)
  obtain ⟨hy, h⟩ := tellsApart_element p.y q.y (.cons rfl _) (.cons rfl _)
    (List.append_cancel_left (List.cons.inj h).2)
  obtain ⟨hz, h⟩ := tellsApart_element p.z q.z (.cons rfl _) (.cons rfl _)
    (List.append_cancel_left (List.cons.inj h).2)
  refine ⟨?_, (List.cons.inj (List.cons.inj h).2).2⟩
  obtain ⟨x, y, z⟩ := p
  obtain ⟨x', y', z'⟩ := q
  rw [JacobianPoint.mk.injEq]
  exact ⟨hx, hy, hz⟩

end Values

section Quotes

def escapedBy : Char → Char
  | '0' => '\x00'
  | 't' => '\t'
  | 'n' => '\n'
  | 'r' => '\r'
  | c => c

theorem escapeChar_cases (c : Char) :
    (escapeChar c = [c] ∧ c ≠ '"' ∧ c ≠ '\\') ∨
    (∃ e, escapeChar c = ['\\', e] ∧ e ≠ 'u' ∧ escapedBy e = c) ∨
    escapeChar c = '\\' :: 'u' :: '\x7b' :: (Nat.toDigits 16 c.toNat ++ ['\x7d']) := by
  rw [escapeChar.eq_def]
  split
  any_goals exact .inr (.inl ⟨_, rfl, by decide, rfl⟩)
  next hquote hslash =>
    split
    · exact .inr (.inr rfl)
    · exact .inl ⟨rfl, hquote, hslash⟩

theorem brace_not_mem_toDigits (n : Nat) : '\x7d' ∉ Nat.toDigits 16 n := by
  intro h
  obtain ⟨d, hd, hbrace⟩ := exists_of_mem_toDigits (by decide) h
  have hall : ∀ d < 16, '\x7d' ≠ d.digitChar := by decide
  exact hall d hd hbrace

theorem escapeChar_append_inj {c d : Char} {s t : List Char}
    (h : escapeChar c ++ s = escapeChar d ++ t) : c = d ∧ s = t := by
  rcases escapeChar_cases c with ⟨hc, -, hslash⟩ | ⟨e, hc, he, rfl⟩ | hc
  · rcases escapeChar_cases d with ⟨hd, -, -⟩ | ⟨e', hd, -, -⟩ | hd <;> rw [hc, hd] at h
    · exact List.cons.inj h
    · exact absurd (List.cons.inj h).1 hslash
    · exact absurd (List.cons.inj h).1 hslash
  · rcases escapeChar_cases d with ⟨hd, -, hslash⟩ | ⟨e', hd, -, rfl⟩ | hd <;> rw [hc, hd] at h
    · exact absurd (List.cons.inj h).1.symm hslash
    · obtain ⟨rfl, hrest⟩ := List.cons.inj (List.cons.inj h).2
      exact ⟨rfl, hrest⟩
    · exact absurd (List.cons.inj (List.cons.inj h).2).1 he
  · rcases escapeChar_cases d with ⟨hd, -, hslash⟩ | ⟨e', hd, he, -⟩ | hd <;> rw [hc, hd] at h
    · exact absurd (List.cons.inj h).1.symm hslash
    · exact absurd (List.cons.inj (List.cons.inj h).2).1.symm he
    · simp only [List.cons_append, List.append_assoc, List.nil_append, List.cons.injEq,
        true_and] at h
      obtain ⟨hnumber, hrest⟩ :=
        append_cons_inj_of_mark (brace_not_mem_toDigits _) (brace_not_mem_toDigits _) h
      refine ⟨?_, hrest⟩
      rw [← Char.ofNat_toNat c, toDigits_injective (by decide) (by decide) hnumber,
        Char.ofNat_toNat]

theorem escapeChar_append_ne_quote (c : Char) (s t : List Char) :
    escapeChar c ++ s ≠ '"' :: t := by
  intro h
  rcases escapeChar_cases c with ⟨hc, hquote, -⟩ | ⟨e, hc, -, -⟩ | hc
  · rw [hc] at h
    exact hquote (List.cons.inj h).1
  · rw [hc] at h
    exact absurd (List.cons.inj h).1 (by decide)
  · rw [hc] at h
    exact absurd (List.cons.inj h).1 (by decide)

/-- A quoted text ends at its second quote that is not escaped. -/
theorem flatMap_escapeChar_inj {text other s t : List Char}
    (h : text.flatMap escapeChar ++ '"' :: s = other.flatMap escapeChar ++ '"' :: t) :
    text = other ∧ s = t := by
  induction text generalizing other with
  | nil =>
      cases other with
      | nil => exact ⟨rfl, (List.cons.inj h).2⟩
      | cons d other =>
          rw [List.flatMap_cons, List.append_assoc] at h
          exact absurd h.symm (escapeChar_append_ne_quote _ _ _)
  | cons c text ih =>
      rw [List.flatMap_cons, List.append_assoc] at h
      cases other with
      | nil => exact absurd h (escapeChar_append_ne_quote _ _ _)
      | cons d other =>
          rw [List.flatMap_cons, List.append_assoc] at h
          obtain ⟨rfl, hrest⟩ := escapeChar_append_inj h
          obtain ⟨rfl, hend⟩ := ih hrest
          exact ⟨rfl, hend⟩

theorem tellsApart_text (a b : String) : TellsApart (fun text => (quote text).toList) a b := by
  intro s t hs ht h
  simp only [quote, String.toList_ofList, List.cons_append, List.append_assoc,
    List.nil_append] at h
  obtain ⟨htext, hrest⟩ := flatMap_escapeChar_inj (List.cons.inj h).2
  exact ⟨String.toList_inj.1 htext, hrest⟩

end Quotes

section Lists

variable {α : Type} {write : α → List Char} {close : Char} {items others : List α}

def following (write : α → List Char) (close : Char) : List α → List Char
  | [] => [close]
  | a :: items => ',' :: ' ' :: (write a ++ following write close items)

/-- Items with commas between them, and the mark at the end. -/
def listed (write : α → List Char) (close : Char) : List α → List Char
  | [] => [close]
  | a :: items => write a ++ following write close items

theorem listed_cons_cons (a b : α) (items : List α) : listed write close (a :: b :: items) =
    write a ++ ',' :: ' ' :: listed write close (b :: items) :=
  rfl

theorem toList_intercalate_map (text : α → String) (close : Char) (items : List α) :
    (", ".intercalate (items.map text)).toList ++ [close] =
      listed (fun a => (text a).toList) close items := by
  induction items with
  | nil => rfl
  | cons a items ih =>
      cases items with
      | nil => rw [List.map_singleton, String.intercalate_singleton]; rfl
      | cons b items =>
          rw [listed_cons_cons, ← ih, List.map_cons, List.map_cons,
            String.intercalate_cons_cons, ← List.map_cons, String.toList_append,
            String.toList_append, List.append_assoc, List.append_assoc]
          rfl

theorem endsNumber_following (hclose : close.isDigit = false) (items : List α) (s : List Char) :
    EndsNumber (following write close items ++ s) := by
  cases items with
  | nil => exact .cons hclose s
  | cons a items => exact .cons rfl _

theorem following_inj (hclose : close.isDigit = false) (hcomma : close ≠ ',')
    (h : ∀ pair ∈ items.zip others, TellsApart write pair.1 pair.2) {s t : List Char}
    (heq : following write close items ++ s = following write close others ++ t) :
    items = others ∧ s = t := by
  induction items generalizing others with
  | nil =>
      cases others with
      | nil => exact ⟨rfl, (List.cons.inj heq).2⟩
      | cons b others => exact absurd (List.cons.inj heq).1 hcomma
  | cons a items ih =>
      cases others with
      | nil => exact absurd (List.cons.inj heq).1.symm hcomma
      | cons b others =>
          rw [List.zip_cons_cons, List.forall_mem_cons] at h
          simp only [following, List.cons_append, List.append_assoc, List.cons.injEq,
            true_and] at heq
          obtain ⟨hab, hrest⟩ := h.1 (endsNumber_following hclose items s)
            (endsNumber_following hclose others t) heq
          obtain rfl : a = b := hab
          obtain ⟨rfl, hend⟩ := ih h.2 hrest
          exact ⟨rfl, hend⟩

theorem listed_inj (hclose : close.isDigit = false) (hcomma : close ≠ ',')
    (hempty : items = [] ↔ others = [])
    (h : ∀ pair ∈ items.zip others, TellsApart write pair.1 pair.2) {s t : List Char}
    (heq : listed write close items ++ s = listed write close others ++ t) :
    items = others ∧ s = t := by
  cases items with
  | nil =>
      obtain rfl := hempty.1 rfl
      exact ⟨rfl, (List.cons.inj heq).2⟩
  | cons a items =>
      cases others with
      | nil => exact absurd (hempty.2 rfl) (List.cons_ne_nil a items)
      | cons b others =>
          exact following_inj hclose hcomma h (congrArg (fun text => ',' :: ' ' :: text) heq)

theorem toList_list (text : α → String) (items : List α) :
    (Layout.inline.list (items.map text)).toList =
      '[' :: listed (fun a => (text a).toList) ']' items := by
  rw [← toList_intercalate_map]
  cases items with
  | nil => rw [List.map_nil, String.intercalate_nil]; rfl
  | cons a items => simp [Layout.list]

theorem tellsApart_bytes (bytes others : List UInt8) :
    TellsApart (fun bytes : List UInt8 => (Layout.inline.list (bytes.map fun byte =>
      toString (byte.toNat : Int))).toList) bytes others := by
  intro s t hs ht h
  have hdigits (byte : UInt8) :
      (toString (byte.toNat : Int)).toList = Nat.toDigits 10 byte.toNat := by
    rw [toList_toString_int, if_pos (Int.natCast_nonneg _), Int.toNat_natCast]
  simp only [toList_list, hdigits, List.cons_append, List.cons.injEq, true_and] at h
  have hcons (byte : UInt8) (bytes : List UInt8) (s t : List Char) :
      listed (fun byte => Nat.toDigits 10 byte.toNat) ']' (byte :: bytes) ++ s ≠ ']' :: t := by
    rw [listed, List.append_assoc]
    exact toDigits_append_ne_cons rfl _ _ _
  have hempty : bytes = [] ↔ others = [] := by
    cases bytes with
    | nil =>
        cases others with
        | nil => rfl
        | cons other others => exact absurd h.symm (hcons other others t s)
    | cons byte bytes =>
        cases others with
        | nil => exact absurd h (hcons byte bytes s t)
        | cons other others => exact iff_of_false (List.cons_ne_nil _ _) (List.cons_ne_nil _ _)
  refine listed_inj rfl (by decide) hempty ?_ h
  rintro ⟨byte, other⟩ - s t hs ht h
  obtain ⟨hnumber, hrest⟩ := tellsApart_toDigits _ _ hs ht h
  exact ⟨UInt8.toNat_inj.1 hnumber, hrest⟩

end Lists

end PallasVesta
