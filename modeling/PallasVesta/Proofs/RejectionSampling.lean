import Mathlib.Order.Interval.Set.Nat
import PallasVesta.Field.Sampling
import PallasVesta.Proofs.ByteEncoding

namespace PallasVesta

theorem littleEndian_ofFn_succ {n : Nat} (digit : Fin (n + 1) → UInt8) :
    littleEndian (List.ofFn digit) =
      littleEndian (List.ofFn fun i : Fin n => digit i.castSucc) +
        256 ^ n * (digit (Fin.last n)).toNat := by
  rw [List.ofFn_succ_last, littleEndian_append, List.length_ofFn, littleEndian_cons]
  rfl

theorem littleEndian_clear_top {n : Nat} (digit : Fin (n + 1) → UInt8) :
    littleEndian (List.ofFn fun i => if i = Fin.last n then digit i &&& 0x7f else digit i) =
      littleEndian (List.ofFn digit) % (256 ^ n * 128) := by
  have htop : (digit (Fin.last n) &&& 0x7f).toNat = (digit (Fin.last n)).toNat % 128 := by
    rw [UInt8.toNat_and]
    exact Nat.and_two_pow_sub_one_eq_mod _ 7
  have hlt := littleEndian_lt (List.ofFn fun i : Fin n => digit i.castSucc)
  rw [List.length_ofFn] at hlt
  rw [littleEndian_ofFn_succ, littleEndian_ofFn_succ digit, if_pos rfl, htop, Nat.mod_mul,
    Nat.add_mul_mod_self_left, Nat.mod_eq_of_lt hlt, Nat.add_mul_div_left _ _ (by positivity),
    Nat.div_eq_of_lt hlt, Nat.zero_add]
  simp only [if_neg (Fin.castSucc_lt_last _).ne]

namespace ByteStream

/-- The integer of a block without its top bit. -/
def maskedValue (block : Vector UInt8 32) : Nat := littleEndian block.toList % 2 ^ 255

def block (stream : ByteStream) (position : Nat) : Vector UInt8 32 :=
  Vector.ofFn fun index => stream (position + index)

def blockValue (stream : ByteStream) (position i : Nat) : Nat :=
  maskedValue (stream.block (position + 32 * i))

theorem blockValue_add (stream : ByteStream) (position n i : Nat) :
    stream.blockValue (position + 32 * n) i = stream.blockValue position (n + i) := by
  rw [blockValue, blockValue, Nat.mul_add, Nat.add_assoc]

theorem toNat_candidate (stream : ByteStream) (position : Nat) :
    (stream.candidate position).toNat = stream.blockValue position 0 := by
  have hclear := littleEndian_clear_top fun index : Fin 32 => stream (position + index)
  rw [candidate, UInt256.toNat_ofBytes, Vector.toList_ofFn, blockValue, maskedValue, block,
    Vector.toList_ofFn]
  exact hclear

theorem blockValue_succ (stream : ByteStream) (position i : Nat) :
    stream.blockValue (position + 32) i = stream.blockValue position (i + 1) := by
  rw [Nat.add_comm i, ← blockValue_add]

/-- What the blocks below the modulus stand for among the first `blocks` blocks, in their order. -/
def acceptedValues (stream : ByteStream) (modulus position blocks : Nat) : List Nat :=
  ((List.range blocks).map (stream.blockValue position)).filter (· < modulus)

theorem acceptedValues_add (stream : ByteStream) (modulus position n k : Nat) :
    stream.acceptedValues modulus position (n + k) =
      stream.acceptedValues modulus position n ++
        stream.acceptedValues modulus (position + 32 * n) k := by
  have hshift : (stream.blockValue position ∘ fun i => n + i) =
      stream.blockValue (position + 32 * n) :=
    funext fun i => (stream.blockValue_add position n i).symm
  rw [acceptedValues, List.range_add, List.map_append, List.map_map, hshift, List.filter_append]
  rfl

theorem acceptedValues_of_first {stream : ByteStream} {modulus position rejected : Nat}
    (hrejected : ∀ i < rejected, modulus ≤ stream.blockValue position i)
    (haccepted : stream.blockValue position rejected < modulus) :
    stream.acceptedValues modulus position (rejected + 1) =
      [stream.blockValue position rejected] := by
  have hnone :
      ((List.range rejected).map (stream.blockValue position)).filter (· < modulus) = [] := by
    rw [List.filter_eq_nil_iff, List.forall_mem_map]
    intro i hi
    rw [decide_eq_true_eq, Nat.not_lt]
    exact hrejected i (List.mem_range.1 hi)
  rw [acceptedValues, List.range_succ, List.map_append, List.filter_append, hnone, List.nil_append,
    List.map_singleton, List.filter_singleton, decide_eq_true haccepted]
  rfl

theorem blockValue_ofList {bytes : List UInt8} {position i : Nat}
    (h : bytes.length ≤ position + 32 * i) : (ofList bytes).blockValue position i = 0 := by
  have hzeros : (ofList bytes).block (position + 32 * i) = Vector.replicate 32 0 := by
    ext j hj
    rw [block, Vector.getElem_ofFn, Vector.getElem_replicate, ofList, List.getD_eq_getElem?_getD,
      List.getElem?_eq_none (Nat.le_add_right_of_le h), Option.getD_none]
  rw [blockValue, hzeros]
  rfl

end ByteStream

namespace FieldElement

variable {M : FieldParams} {stream : ByteStream} {position rejected : Nat}

theorem draw_of_lt (h : stream.blockValue position 0 < M.modulus.toNat) (limit : Nat) :
    draw stream position (limit + 1) =
      some ((⟨stream.candidate position⟩ : FieldElement M), position + 32) := by
  rw [draw, ofInteger_of_lt ((stream.toNat_candidate position).trans_lt h)]

theorem draw_of_le (h : M.modulus.toNat ≤ stream.blockValue position 0) (limit : Nat) :
    (draw stream position (limit + 1) : Option (FieldElement M × Nat)) =
      draw stream (position + 32) limit := by
  rw [draw, ofInteger_of_le (h.trans_eq (stream.toNat_candidate position).symm)]

/-- A draw takes the first block that is below the modulus, if the limit lets it get there. -/
theorem draw_eq (hrejected : ∀ i < rejected, M.modulus.toNat ≤ stream.blockValue position i)
    (haccepted : stream.blockValue position rejected < M.modulus.toNat) (limit : Nat) :
    draw stream position limit =
      if rejected < limit then
        some ((⟨stream.candidate (position + 32 * rejected)⟩ : FieldElement M),
          position + 32 * (rejected + 1))
      else none := by
  induction limit generalizing position rejected with
  | zero => rw [draw, if_neg (Nat.not_lt_zero _)]
  | succ limit ih =>
      cases rejected with
      | zero => rw [draw_of_lt haccepted limit, if_pos (Nat.succ_pos _)]; rfl
      | succ rejected =>
          have hstart (n : Nat) : position + 32 + 32 * n = position + 32 * (n + 1) := by omega
          rw [← ByteStream.blockValue_succ] at haccepted
          rw [draw_of_le (hrejected 0 (Nat.succ_pos _)), ih _ haccepted, hstart, hstart]
          · simp only [Nat.succ_lt_succ_iff]
          · intro i hi
            rw [ByteStream.blockValue_succ]
            exact hrejected (i + 1) (Nat.succ_lt_succ hi)

theorem exists_first_accepted (h : ∃ i, stream.blockValue position i < M.modulus.toNat) :
    ∃ rejected, (∀ i < rejected, M.modulus.toNat ≤ stream.blockValue position i) ∧
      stream.blockValue position rejected < M.modulus.toNat :=
  ⟨Nat.find h, fun _ hi => Nat.le_of_not_lt (Nat.find_min h hi), Nat.find_spec h⟩

theorem drawMany_succ {limit count next last : Nat} {a : FieldElement M}
    {rest : List (FieldElement M)} (hfirst : draw stream position limit = some (a, next))
    (hrest : drawMany stream limit next count = some (rest, last)) :
    drawMany stream limit position (count + 1) = some (a :: rest, last) := by
  rw [drawMany, hfirst]
  change (drawMany stream limit next count).bind _ = _
  rw [hrest]
  rfl

/-- Successive draws take the acceptable blocks of a stream that never runs out of them, up to the
last one they need. -/
theorem exists_drawMany (hstream : ∀ n, ∃ i ≥ n, stream.blockValue position i < M.modulus.toNat)
    (count : Nat) :
    ∃ (blocks : Nat) (drawn : List (FieldElement M)),
      (∀ limit ≥ blocks,
        drawMany stream limit position count = some (drawn, position + 32 * blocks)) ∧
      drawn.length = count ∧
      drawn.map (·.value.toNat) = stream.acceptedValues M.modulus.toNat position blocks ∧
      ∀ last, blocks = last + 1 → stream.blockValue position last < M.modulus.toNat := by
  induction count generalizing position with
  | zero => exact ⟨0, [], fun _ _ => rfl, rfl, rfl, nofun⟩
  | succ count ih =>
      obtain ⟨i, -, hi⟩ := hstream 0
      obtain ⟨rejected, hrejected, haccepted⟩ := exists_first_accepted ⟨i, hi⟩
      have hnext (n : Nat) : ∃ i ≥ n,
          stream.blockValue (position + 32 * (rejected + 1)) i < M.modulus.toNat := by
        obtain ⟨i, hle, hi⟩ := hstream (rejected + 1 + n)
        refine ⟨i - (rejected + 1), by omega, ?_⟩
        rwa [ByteStream.blockValue_add, Nat.add_sub_cancel' (by omega)]
      obtain ⟨blocks, rest, hrest, hlength, hvalues, hlast⟩ := ih hnext
      refine ⟨rejected + 1 + blocks, ⟨stream.candidate (position + 32 * rejected)⟩ :: rest, ?_, ?_,
        ?_, ?_⟩
      · intro limit hlimit
        have hfirst := draw_eq hrejected haccepted limit
        rw [if_pos (by omega)] at hfirst
        rw [Nat.mul_add, ← Nat.add_assoc]
        exact drawMany_succ hfirst (hrest limit (by omega))
      · rw [List.length_cons, hlength]
      · rw [List.map_cons, hvalues, ByteStream.acceptedValues_add,
          ByteStream.acceptedValues_of_first hrejected haccepted, ByteStream.toNat_candidate,
          ByteStream.blockValue_add]
        rfl
      · intro last hblocks
        cases blocks with
        | zero =>
            have hsame : last = rejected := by omega
            rwa [hsame]
        | succ blocks =>
            have hsame : last = rejected + 1 + blocks := by omega
            rw [hsame, ← ByteStream.blockValue_add]
            exact hlast blocks rfl

end FieldElement

namespace ByteStream

def blockOf (top : Bool) (value : Nat) : Vector UInt8 32 :=
  (UInt256.ofNat (2 ^ 255 * top.toNat + value)).toBytes

theorem littleEndian_blockOf (top : Bool) {value : Nat} (h : value < 2 ^ 255) :
    littleEndian (blockOf top value).toList = 2 ^ 255 * top.toNat + value := by
  have htop := top.toNat_le
  have hlt : 2 ^ 255 * top.toNat + value < UInt256.size := by
    rw [UInt256.size]
    omega
  rw [blockOf, UInt256.littleEndian_toBytes, UInt256.toNat_ofNat hlt]

theorem maskedValue_blockOf (top : Bool) {value : Nat} (h : value < 2 ^ 255) :
    maskedValue (blockOf top value) = value := by
  rw [maskedValue, littleEndian_blockOf top h, Nat.mul_add_mod, Nat.mod_eq_of_lt h]

theorem maskedValue_lt (block : Vector UInt8 32) : maskedValue block < 2 ^ 255 :=
  Nat.mod_lt _ (by positivity)

theorem exists_eq_blockOf (block : Vector UInt8 32) :
    ∃ top, blockOf top (maskedValue block) = block := by
  have hlt := littleEndian_lt block.toList
  rw [Vector.length_toList] at hlt
  have hspell (top : Bool)
      (h : littleEndian block.toList = 2 ^ 255 * top.toNat + maskedValue block) :
      blockOf top (maskedValue block) = block := by
    rw [← Vector.toList_inj, ← littleEndian_inj (by simp),
      littleEndian_blockOf top (maskedValue_lt block), h]
  by_cases htop : littleEndian block.toList < 2 ^ 255
  · refine ⟨false, hspell false ?_⟩
    rw [Bool.toNat_false, Nat.mul_zero, Nat.zero_add, maskedValue, Nat.mod_eq_of_lt htop]
  · refine ⟨true, hspell true ?_⟩
    rw [Bool.toNat_true, Nat.mul_one, maskedValue]
    omega

theorem blockOf_injOn : Set.InjOn (fun p : Bool × Nat => blockOf p.1 p.2) {p | p.2 < 2 ^ 255} := by
  rintro ⟨top, value⟩ hvalue ⟨other, same⟩ hsame (h : blockOf top value = blockOf other same)
  have hmasked := congrArg maskedValue h
  rw [maskedValue_blockOf top hvalue, maskedValue_blockOf other hsame] at hmasked
  have hspelled := congrArg (fun block => littleEndian block.toList) h
  have htop : top = other := by
    rw [littleEndian_blockOf top hvalue, littleEndian_blockOf other hsame, hmasked] at hspelled
    cases top <;> cases other <;> simp_all
  exact Prod.ext htop hmasked

/-- Each integer below `2 ^ 255` is that of two blocks. -/
theorem ncard_maskedValue_mem {values : Set Nat} (h : ∀ value ∈ values, value < 2 ^ 255) :
    {block | maskedValue block ∈ values}.ncard = 2 * values.ncard := by
  have himage : {block | maskedValue block ∈ values} =
      (fun p : Bool × Nat => blockOf p.1 p.2) '' (Set.univ ×ˢ values) := by
    ext block
    constructor
    · intro hblock
      obtain ⟨top, hspell⟩ := exists_eq_blockOf block
      exact ⟨(top, maskedValue block), ⟨trivial, hblock⟩, hspell⟩
    · rintro ⟨⟨top, value⟩, ⟨-, hvalue⟩, rfl⟩
      change maskedValue (blockOf top value) ∈ values
      rwa [maskedValue_blockOf top (h value hvalue)]
  have hinj : Set.InjOn (fun p : Bool × Nat => blockOf p.1 p.2) (Set.univ ×ˢ values) :=
    blockOf_injOn.mono fun p hp => h p.2 hp.2
  rw [himage, hinj.ncard_image, Set.ncard_prod, Set.ncard_univ, Nat.card_eq_fintype_card,
    Fintype.card_bool]

theorem card_blocks : Nat.card (Vector UInt8 32) = 2 ^ 256 := by
  have hall : {block | maskedValue block ∈ Set.Iio (2 ^ 255)} = Set.univ :=
    Set.eq_univ_of_forall maskedValue_lt
  have hbelow : ∀ value ∈ Set.Iio (2 ^ 255), value < 2 ^ 255 := fun _ hvalue => hvalue
  have hcard := ncard_maskedValue_mem hbelow
  rw [hall, Set.ncard_univ, Set.ncard_Iio_nat] at hcard
  rw [hcard, ← Nat.pow_succ']

end ByteStream

namespace FieldElement

variable {M : FieldParams}

theorem draw_block_eq_iff (block : Vector UInt8 32) (a : FieldElement M) :
    draw (.ofList block.toList) 0 1 = some (a, 32) ↔
      ByteStream.maskedValue block = a.value.toNat ∧ a.IsCanonical := by
  have hblock : (ByteStream.ofList block.toList).blockValue 0 0 = ByteStream.maskedValue block := by
    have hsame : (ByteStream.ofList block.toList).block 0 = block := by
      ext i hi
      simp [ByteStream.block, ByteStream.ofList]
    rw [ByteStream.blockValue, hsame]
  by_cases hlt : ByteStream.maskedValue block < M.modulus.toNat
  · have hvalue : ((ByteStream.ofList block.toList).candidate 0).toNat =
        ByteStream.maskedValue block := by
      rw [ByteStream.toNat_candidate, hblock]
    rw [draw_of_lt (hblock.trans_lt hlt), Nat.zero_add, Option.some.injEq, Prod.mk.injEq,
      and_iff_left rfl]
    constructor
    · rintro rfl
      exact ⟨hvalue.symm, hvalue.trans_lt hlt⟩
    · rintro ⟨hsame, -⟩
      exact ext_value (hvalue.trans hsame)
  · rw [draw_of_le (hblock.symm ▸ Nat.le_of_not_lt hlt)]
    constructor
    · exact nofun
    · rintro ⟨hsame, hcanonical⟩
      exact absurd (hsame.trans_lt hcanonical) hlt

section Uniform

variable (hM : M.modulus.toNat ≤ 2 ^ 255)

include hM

theorem ncard_blocks_of_element {a : FieldElement M} (ha : a.IsCanonical) :
    {block : Vector UInt8 32 | draw (.ofList block.toList) 0 1 = some (a, 32)}.ncard = 2 := by
  have hblocks : {block : Vector UInt8 32 | draw (.ofList block.toList) 0 1 = some (a, 32)} =
      {block | ByteStream.maskedValue block ∈ ({a.value.toNat} : Set Nat)} := by
    ext block
    exact (draw_block_eq_iff block a).trans (and_iff_left ha)
  have hvalue : ∀ value ∈ ({a.value.toNat} : Set Nat), value < 2 ^ 255 := by
    rintro value rfl
    exact Nat.lt_of_lt_of_le ha hM
  rw [hblocks, ByteStream.ncard_maskedValue_mem hvalue, Set.ncard_singleton]

theorem ncard_accepted_blocks :
    {block : Vector UInt8 32 | ∃ a : FieldElement M,
      draw (.ofList block.toList) 0 1 = some (a, 32)}.ncard = 2 * M.modulus.toNat := by
  have hblocks : {block : Vector UInt8 32 | ∃ a : FieldElement M,
      draw (.ofList block.toList) 0 1 = some (a, 32)} =
        {block | ByteStream.maskedValue block ∈ Set.Iio M.modulus.toNat} := by
    ext block
    constructor
    · rintro ⟨a, hdraw⟩
      obtain ⟨hvalue, hcanonical⟩ := (draw_block_eq_iff block a).1 hdraw
      exact hvalue.trans_lt hcanonical
    · intro hlt
      have hvalue := UInt256.toNat_ofNat (Nat.lt_trans hlt M.modulus.toNat_lt)
      exact ⟨⟨.ofNat (ByteStream.maskedValue block)⟩,
        (draw_block_eq_iff block _).2 ⟨hvalue.symm, hvalue.trans_lt hlt⟩⟩
  have hvalues : ∀ value ∈ Set.Iio M.modulus.toNat, value < 2 ^ 255 :=
    fun value hlt => Nat.lt_of_lt_of_le hlt hM
  rw [hblocks, ByteStream.ncard_maskedValue_mem hvalues, Set.ncard_Iio_nat]

end Uniform

/-- Successive draws are the blocks below the modulus in the order of the stream, none left out and
none taken twice, and each draw takes the blocks up to the first of them. Modulo no more than
`2 ^ 255`, every element is that of two of all blocks. -/
theorem draws_are_accepted_blocks (M : FieldParams) (hM : 2 ≤ M.modulus.toNat) :
    (∀ (stream : ByteStream) (position : Nat),
      (∃ i, stream.blockValue position i < M.modulus.toNat) →
      ∃ (a : FieldElement M) (rejected : Nat),
        (∀ i < rejected, M.modulus.toNat ≤ stream.blockValue position i) ∧
        stream.blockValue position rejected < M.modulus.toNat ∧
        a.value.toNat = stream.blockValue position rejected ∧
        ∀ limit, draw stream position limit =
          if rejected < limit then some (a, position + 32 * (rejected + 1)) else none) ∧
    (∀ (stream : ByteStream) (position : Nat),
      (∀ n, ∃ i ≥ n, stream.blockValue position i < M.modulus.toNat) →
      ∀ count, ∃ (blocks : Nat) (drawn : List (FieldElement M)),
        (∀ limit ≥ blocks,
          drawMany stream limit position count = some (drawn, position + 32 * blocks)) ∧
        drawn.length = count ∧
        drawn.map (·.value.toNat) = stream.acceptedValues M.modulus.toNat position blocks ∧
        ∀ last, blocks = last + 1 → stream.blockValue position last < M.modulus.toNat) ∧
    (∀ (bytes : List UInt8) (position n : Nat),
      ∃ i ≥ n, (ByteStream.ofList bytes).blockValue position i < M.modulus.toNat) ∧
    (M.modulus.toNat ≤ 2 ^ 255 →
      Nat.card (Vector UInt8 32) = 2 ^ 256 ∧
      {block : Vector UInt8 32 | ∃ a : FieldElement M,
        draw (.ofList block.toList) 0 1 = some (a, 32)}.ncard = 2 * M.modulus.toNat ∧
      ∀ a : FieldElement M, a.IsCanonical →
        {block : Vector UInt8 32 | draw (.ofList block.toList) 0 1 = some (a, 32)}.ncard = 2) := by
  refine ⟨?_, fun stream position hstream count => exists_drawMany hstream count, ?_, ?_⟩
  · intro stream position hstream
    obtain ⟨rejected, hrejected, haccepted⟩ := exists_first_accepted hstream
    refine ⟨_, rejected, hrejected, haccepted, ?_, draw_eq hrejected haccepted⟩
    rw [ByteStream.toNat_candidate, ByteStream.blockValue_add]
    rfl
  · intro bytes position n
    refine ⟨n + bytes.length, Nat.le_add_right _ _, ?_⟩
    rw [ByteStream.blockValue_ofList (by omega)]
    omega
  · intro hle
    exact ⟨ByteStream.card_blocks, ncard_accepted_blocks hle,
      fun a ha => ncard_blocks_of_element hle ha⟩

theorem draw_seven_after_ones :
    2 ≤ FieldParams.fp.modulus.toNat ∧
      (∃ i, (ByteStream.ofList (List.replicate 32 255 ++ [7])).blockValue 0 i <
        FieldParams.fp.modulus.toNat) ∧
      draw (.ofList (List.replicate 32 255 ++ [7])) 0 2 = some ((⟨.ofLimb 7⟩ : Fp), 64) ∧
      (∃ (blocks : Nat) (drawn : List Fp), drawn.length = 3 ∧ ∀ limit ≥ blocks,
        drawMany (.ofList (List.replicate 32 255 ++ [7])) limit 0 3 =
          some (drawn, 0 + 32 * blocks)) ∧
      FieldParams.fp.modulus.toNat ≤ 2 ^ 255 ∧ (1 : Fp).IsCanonical ∧
      {block : Vector UInt8 32 |
        draw (.ofList block.toList) 0 1 = some ((1 : Fp), 32)}.ncard = 2 := by
  have hM : 2 ≤ FieldParams.fp.modulus.toNat := by decide
  have hle : FieldParams.fp.modulus.toNat ≤ 2 ^ 255 := by decide
  have hone : (1 : Fp).IsCanonical := isCanonical_one hM
  obtain ⟨hdraw, hmany, hstreams, huniform⟩ := draws_are_accepted_blocks .fp hM
  have hstream := hstreams (List.replicate 32 255 ++ [7]) 0
  obtain ⟨i, -, hi⟩ := hstream 0
  obtain ⟨a, rejected, hrejected, haccepted, hvalue, hlimit⟩ := hdraw _ 0 ⟨i, hi⟩
  have hones : FieldParams.fp.modulus.toNat ≤
      (ByteStream.ofList (List.replicate 32 255 ++ [7])).blockValue 0 0 := by decide
  have hseven : (ByteStream.ofList (List.replicate 32 255 ++ [7])).blockValue 0 1 = 7 := by decide
  have hfirst : rejected = 1 := by
    by_contra hne
    rcases Nat.lt_or_gt_of_ne hne with hlt | hgt
    · rw [Nat.lt_one_iff.1 hlt] at haccepted
      exact absurd haccepted (Nat.not_lt.2 hones)
    · have hmore := hrejected 1 hgt
      rw [hseven] at hmore
      exact absurd hmore (by decide)
  subst hfirst
  have ha : a = ⟨.ofLimb 7⟩ := ext_value (hvalue.trans hseven)
  obtain ⟨blocks, drawn, hblocks, hlength, -⟩ := hmany _ 0 hstream 3
  exact ⟨hM, ⟨i, hi⟩, ha ▸ hlimit 2, ⟨blocks, drawn, hlength, hblocks⟩, hle, hone,
    (huniform hle).2.2 1 hone⟩

end FieldElement

end PallasVesta
