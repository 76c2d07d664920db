import PallasVesta.Proofs.DelimitedTexts
import PallasVesta.Proofs.TracedCalls

namespace PallasVesta

namespace Trace

/-- What an argument is, without its value. -/
inductive Kind where
  | int
  | flag
  | text
  | bytes
  | integer
  | element (M : FieldParams)
  | point (C : CurveParams)

namespace Argument

def kind : Argument → Kind
  | int _ => .int
  | flag _ => .flag
  | text _ => .text
  | bytes _ => .bytes
  | integer _ => .integer
  | element (M := M) _ => .element M
  | point (C := C) _ => .point C

def line (argument : Argument) : List Char := (argument.render {}).toList

theorem line_int (n : Int) : line (.int n) = (toString n).toList := by
  simp [line, render, Style.number, Padding.apply]

theorem line_flag (flag : Bool) : line (.flag flag) = (boolText flag).toList := by
  simp [line, render, Padding.apply]

theorem line_bytes (bytes : List UInt8) : line (.bytes bytes) =
    (Layout.inline.list (bytes.map fun byte => toString (byte.toNat : Int))).toList := by
  simp [line, render, Style.number, Padding.apply]

theorem tellsApart_line {a b : Argument} (h : a.kind = b.kind) : TellsApart line a b := by
  intro s t hs ht heq
  cases a with
  | int m =>
      cases b with
      | int n =>
          rw [line_int, line_int] at heq
          obtain ⟨rfl, hrest⟩ := tellsApart_int m n hs ht heq
          exact ⟨rfl, hrest⟩
      | _ => cases h
  | flag value =>
      cases b with
      | flag other =>
          rw [line_flag, line_flag] at heq
          obtain ⟨rfl, hrest⟩ := tellsApart_flag value other hs ht heq
          exact ⟨rfl, hrest⟩
      | _ => cases h
  | text value =>
      cases b with
      | text other =>
          obtain ⟨rfl, hrest⟩ := tellsApart_text value other hs ht heq
          exact ⟨rfl, hrest⟩
      | _ => cases h
  | bytes value =>
      cases b with
      | bytes other =>
          rw [line_bytes, line_bytes] at heq
          obtain ⟨rfl, hrest⟩ := tellsApart_bytes value other hs ht heq
          exact ⟨rfl, hrest⟩
      | _ => cases h
  | integer value =>
      cases b with
      | integer other =>
          obtain ⟨rfl, hrest⟩ := tellsApart_integer value other hs ht heq
          exact ⟨rfl, hrest⟩
      | _ => cases h
  | element value =>
      cases b with
      | element other =>
          cases h
          obtain ⟨rfl, hrest⟩ := tellsApart_element value other hs ht heq
          exact ⟨rfl, hrest⟩
      | _ => cases h
  | point value =>
      cases b with
      | point other =>
          cases h
          obtain ⟨rfl, hrest⟩ := tellsApart_point value other hs ht heq
          exact ⟨rfl, hrest⟩
      | _ => cases h

theorem kind_eq_of_mem_zip {args others : List Argument} (h : args.map kind = others.map kind) :
    ∀ pair ∈ args.zip others, pair.1.kind = pair.2.kind := by
  induction args generalizing others with
  | nil => simp
  | cons a args ih =>
      cases others with
      | nil => simp
      | cons b others =>
          rw [List.map_cons, List.map_cons] at h
          rw [List.zip_cons_cons, List.forall_mem_cons]
          exact ⟨(List.cons.inj h).1, ih (List.cons.inj h).2⟩

end Argument

namespace Record

theorem toList_render (record : Record) : (record.render {}).toList =
    '#' :: (Nat.toDigits 10 record.seq.toNat ++ ' ' ::
      ((record.family ++ "_" ++ record.op).toList ++ '(' ::
        listed Argument.line ')' record.args)) := by
  have hargs := toList_intercalate_map (Argument.render {}) ')' record.args
  rw [show listed Argument.line = listed fun a => (Argument.render {} a).toList from rfl, ← hargs]
  simp [render, Nat.toString_eq_repr]

theorem of_render_eq {record other : Record}
    (hname : '(' ∉ (record.family ++ "_" ++ record.op).toList)
    (hother : '(' ∉ (other.family ++ "_" ++ other.op).toList)
    (h : record.render {} = other.render {}) :
    record.seq = other.seq ∧
      record.family ++ "_" ++ record.op = other.family ++ "_" ++ other.op ∧
      listed Argument.line ')' record.args = listed Argument.line ')' other.args := by
  have hlist := congrArg String.toList h
  rw [toList_render, toList_render, List.cons.injEq] at hlist
  obtain ⟨hseq, hrest⟩ := tellsApart_toDigits _ _ (.cons rfl _) (.cons rfl _) hlist.2
  obtain ⟨htext, hargs⟩ := append_cons_inj_of_mark hname hother (List.cons.inj hrest).2
  exact ⟨UInt64.toNat_inj.1 hseq, String.toList_inj.1 htext, hargs⟩

theorem args_eq_of_listed_eq {args others : List Argument}
    (hkinds : args.map Argument.kind = others.map Argument.kind)
    (h : listed Argument.line ')' args = listed Argument.line ')' others) : args = others := by
  have hempty : args = [] ↔ others = [] := by
    rw [← List.map_eq_nil_iff (f := Argument.kind), hkinds, List.map_eq_nil_iff]
  have htell : ∀ pair ∈ args.zip others, TellsApart Argument.line pair.1 pair.2 := fun pair hpair =>
    Argument.tellsApart_line (Argument.kind_eq_of_mem_zip hkinds pair hpair)
  exact (listed_inj rfl (by decide) hempty htell (congrArg (· ++ []) h)).1

end Record

end Trace

open Trace

def FieldElement.signature (M : FieldParams) : String → List Kind
  | "add" | "sub" | "mul" | "div" | "compare" | "equal" => [.element M, .element M]
  | "negate" | "inv" | "square" | "is_square" | "sqrt" | "to_string" | "to_bigint" | "to_bytes"
  | "deep_copy" => [.element M]
  | "pow" => [.element M, .integer]
  | "of_int" | "rng" | "domain_generator" => [.int]
  | "of_decimal_string" => [.text]
  | "of_bigint" => [.integer]
  | "of_bytes" => [.bytes]
  | _ => []

def JacobianPoint.signature (C : CurveParams) : String → List Kind
  | "add" | "sub" => [.point C, .point C]
  | "negate" | "double" | "to_affine" => [.point C]
  | "scale" => [.point C, .element C.scalar]
  | "of_affine_coordinates" => [.element C.base, .element C.base]
  | "rng" => [.int]
  | _ => []

def UInt256.signature : String → List Kind
  | "of_bytes" => [.bytes]
  | "to_bytes" | "to_string" | "deep_copy" => [.integer]
  | "of_decimal_string" => [.text]
  | "of_numeral" => [.text, .int]
  | "test_bit" => [.integer, .int]
  | "compare" | "div" => [.integer, .integer]
  | _ => []

/-- The kinds of the arguments of an operation, by its family and its name. -/
def Backend.signature : String → String → List Kind
  | "pasta_fp" => FieldElement.signature .fp
  | "pasta_fq" => FieldElement.signature .fq
  | "pallas" => JacobianPoint.signature .pallas
  | "vesta" => JacobianPoint.signature .vesta
  | "bigint_256" => UInt256.signature
  | _ => fun _ => []

namespace FieldCall

variable {M : FieldParams}

theorem kind_args (call : FieldCall M) :
    call.args.map Argument.kind = FieldElement.signature M call.op := by
  cases call <;> rfl

theorem parenthesis_not_mem_op (call : FieldCall M) : '(' ∉ call.op.toList := by
  cases call <;> dsimp only [op] <;> decide

/-- The drawn bytes are no argument, so draws are not told apart. -/
theorem eq_of_args {call other : FieldCall M} (hop : call.op = other.op)
    (hargs : call.args = other.args) (hrandom : call.op ≠ "random") : call = other := by
  -- Two operations differ in their names, and the calls of one in their arguments.
  cases call <;> cases other <;> dsimp only [op, args] at hop hargs hrandom
  all_goals first
    | exact absurd hop (by decide)
    | exact absurd rfl hrandom
    | rfl
    | simpa [Int64.toInt_inj, UInt64.toNat_inj] using hargs

end FieldCall

namespace CurveCall

variable {C : CurveParams}

theorem kind_args (call : CurveCall C) :
    call.args.map Argument.kind = JacobianPoint.signature C call.op := by
  cases call <;> rfl

theorem parenthesis_not_mem_op (call : CurveCall C) : '(' ∉ call.op.toList := by
  cases call <;> dsimp only [op] <;> decide

theorem eq_of_args {call other : CurveCall C} (hop : call.op = other.op)
    (hargs : call.args = other.args) (hrandom : call.op ≠ "random") : call = other := by
  cases call <;> cases other <;> dsimp only [op, args] at hop hargs hrandom
  all_goals first
    | exact absurd hop (by decide)
    | exact absurd rfl hrandom
    | rfl
    | simpa [UInt64.toNat_inj] using hargs

end CurveCall

namespace IntegerCall

theorem kind_args (call : IntegerCall) :
    call.args.map Argument.kind = UInt256.signature call.op := by
  cases call <;> rfl

theorem parenthesis_not_mem_op (call : IntegerCall) : '(' ∉ call.op.toList := by
  cases call <;> dsimp only [op] <;> decide

theorem eq_of_args {call other : IntegerCall} (hop : call.op = other.op)
    (hargs : call.args = other.args) : call = other := by
  cases call <;> cases other <;> dsimp only [op, args] at hop hargs
  all_goals first
    | exact absurd hop (by decide)
    | rfl
    | simpa using hargs

end IntegerCall

namespace Call

def families : List String := ["pasta_fp", "pasta_fq", "pallas", "vesta", "bigint_256"]

theorem family_mem (call : Call) : call.family ∈ families := by
  cases call <;> dsimp only [family] <;> decide

theorem families_prefixFree : ∀ family ∈ families, ∀ other ∈ families,
    (family ++ "_").toList <+: (other ++ "_").toList → family = other := by
  decide

theorem kind_args (call : Call) :
    call.args.map Argument.kind = Backend.signature call.family call.op := by
  cases call with
  | fp call | fq call | pallas call | vesta call | integer call => exact call.kind_args

theorem parenthesis_not_mem_name (call : Call) :
    '(' ∉ (call.family ++ "_" ++ call.op).toList := by
  have hfamily : ∀ family ∈ families, '(' ∉ (family ++ "_").toList := by decide
  have hop : '(' ∉ call.op.toList := by
    cases call with
    | fp call | fq call | pallas call | vesta call | integer call =>
        exact call.parenthesis_not_mem_op
  rw [String.toList_append, List.mem_append, not_or]
  exact ⟨hfamily _ call.family_mem, hop⟩

theorem family_op_inj {call other : Call}
    (h : call.family ++ "_" ++ call.op = other.family ++ "_" ++ other.op) :
    call.family = other.family ∧ call.op = other.op := by
  have hlist : (call.family ++ "_").toList ++ call.op.toList =
      (other.family ++ "_").toList ++ other.op.toList := by
    rw [← String.toList_append, ← String.toList_append, h]
  have hfamily : call.family = other.family := by
    -- One family begins like the other, whichever is the longer.
    have hprefix : (call.family ++ "_").toList <+:
        (other.family ++ "_").toList ++ other.op.toList := hlist ▸ List.prefix_append _ _
    rcases List.prefix_or_prefix_of_prefix hprefix (List.prefix_append _ _) with hle | hle
    · exact families_prefixFree _ call.family_mem _ other.family_mem hle
    · exact (families_prefixFree _ other.family_mem _ call.family_mem hle).symm
  rw [hfamily] at hlist
  exact ⟨hfamily, String.toList_inj.1 (List.append_cancel_left hlist)⟩

theorem eq_of_args {call other : Call} (hfamily : call.family = other.family)
    (hop : call.op = other.op) (hargs : call.args = other.args) (hrandom : call.op ≠ "random") :
    call = other := by
  cases call <;> cases other <;> dsimp only [family, op, args] at hfamily hop hargs hrandom
  all_goals first
    | exact absurd hfamily (by decide)
    | exact congrArg _ (FieldCall.eq_of_args hop hargs hrandom)
    | exact congrArg _ (CurveCall.eq_of_args hop hargs hrandom)
    | exact congrArg _ (IntegerCall.eq_of_args hop hargs)

def record (call : Call) (seq : UInt64) : Record := ⟨seq, call.family, call.op, call.args⟩

theorem record_eq_of_render_eq {call other : Call} {seq seq' : UInt64}
    (h : (call.record seq).render {} = (other.record seq').render {}) :
    call.record seq = other.record seq' := by
  have hname : '(' ∉ ((call.record seq).family ++ "_" ++ (call.record seq).op).toList :=
    call.parenthesis_not_mem_name
  have hother : '(' ∉ ((other.record seq').family ++ "_" ++ (other.record seq').op).toList :=
    other.parenthesis_not_mem_name
  obtain ⟨hseq, hnames, hargs⟩ := Record.of_render_eq hname hother h
  obtain ⟨hfamily, hop⟩ := family_op_inj hnames
  have hkinds : call.args.map Argument.kind = other.args.map Argument.kind := by
    rw [kind_args, kind_args, hfamily, hop]
  rw [record, record, Record.mk.injEq]
  exact ⟨hseq, hfamily, hop, Record.args_eq_of_listed_eq hkinds hargs⟩

end Call

namespace Backend

theorem exists_of_mem_received {settings : Settings} {sink : Sink} {calls : List Call}
    {record : Record} (h : record ∈ ((start settings sink).run calls).1.tracer.received) :
    ∃ call ∈ calls, ∃ seq, record = call.record seq := by
  rw [run_eq] at h
  cases htrace : settings.trace with
  | false =>
      rw [Tracer.recordCalls_of_disabled htrace] at h
      nomatch h
  | true =>
      rw [Tracer.recordCalls_of_enabled htrace] at h
      obtain ⟨i, hi, rfl⟩ := List.mem_mapIdx.1 h
      exact ⟨calls[i], List.getElem_mem hi, _, rfl⟩

theorem eq_record_of_received {backend : Backend} {call : Call} {record : Record}
    (h : (backend.call call).1.tracer.received = backend.tracer.received ++ [record]) :
    record = call.record backend.tracer.next := by
  rw [call_eq, Tracer.record] at h
  cases henabled : backend.tracer.enabled with
  | false =>
      rw [henabled, if_neg Bool.false_ne_true] at h
      exact absurd (List.self_eq_append_right.1 h) (List.cons_ne_nil _ _)
  | true =>
      rw [henabled, if_pos rfl] at h
      exact (List.cons.inj (List.append_cancel_left h)).1.symm

/-- Traced calls with one line have one number, one name and the same arguments, in whatever state
the tracers are, and are one call unless they draw. So the records of two runs are told apart by
their lines. -/
theorem trace_line_identifies_call :
    (∀ (backend other : Backend) (call call' : Call) (record record' : Record),
      (backend.call call).1.tracer.received = backend.tracer.received ++ [record] →
      (other.call call').1.tracer.received = other.tracer.received ++ [record'] →
      record.render {} = record'.render {} →
        record.seq = record'.seq ∧ call.family = call'.family ∧ call.op = call'.op ∧
          call.args = call'.args ∧ (call.op ≠ "random" → call = call')) ∧
    ∀ (settings settings' : Settings) (sink sink' : Sink) (calls calls' : List Call),
      ∀ record ∈ ((start settings sink).run calls).1.tracer.received,
      ∀ record' ∈ ((start settings' sink').run calls').1.tracer.received,
        record.render {} = record'.render {} → record = record' := by
  constructor
  · intro backend other call call' record record' h h' htext
    obtain rfl := eq_record_of_received h
    obtain rfl := eq_record_of_received h'
    obtain ⟨hseq, hfamily, hop, hargs⟩ :=
      Record.mk.inj (Call.record_eq_of_render_eq htext)
    exact ⟨hseq, hfamily, hop, hargs, Call.eq_of_args hfamily hop hargs⟩
  · intro settings settings' sink sink' calls calls' record hrecord record' hrecord' htext
    obtain ⟨call, -, seq, rfl⟩ := exists_of_mem_received hrecord
    obtain ⟨call', -, seq', rfl⟩ := exists_of_mem_received hrecord'
    exact Call.record_eq_of_render_eq htext

theorem trace_line_of_draws_and_numerals :
    let collecting := start ⟨true, .exact⟩ .collect
    let logging := start ⟨true, .compatible⟩ .log
    let draw (byte : UInt8) : Call := .fp (.random fun _ => byte)
    let numeral (text : String) (radix : Nat) : Call := .integer (.ofNumeral text radix)
    (collecting.call (draw 0)).1.tracer.received = [(draw 0).record 0] ∧
      (logging.call (draw 1)).1.tracer.received = [(draw 1).record 0] ∧
      ((draw 0).record 0).render {} = ((draw 1).record 0).render {} ∧
      (draw 0).args = (draw 1).args ∧ draw 0 ≠ draw 1 ∧
      (numeral "7\", 16)" 10).record 1 ∈
        (collecting.run [draw 0, numeral "7\", 16)" 10]).1.tracer.received ∧
      (numeral "7" 16).record 1 ∈ (logging.run [draw 1, numeral "7" 16]).1.tracer.received ∧
      ((numeral "7\", 16)" 10).record 1).render {} =
        "#1 bigint_256_of_numeral(\"7\\\", 16)\", 10)" ∧
      ((numeral "7\", 16)" 10).record 1).render {} ≠ ((numeral "7" 16).record 1).render {} := by
  intro collecting logging draw numeral
  have hargs := (trace_line_identifies_call.1 collecting logging (draw 0) (draw 1)
    ((draw 0).record 0) ((draw 1).record 0) rfl rfl rfl).2.2.2.1
  have hdraws : draw 0 ≠ draw 1 := by
    intro h
    injection h with h
    injection h with h
    exact absurd (congrFun h 0) (by decide)
  have hcollected : (numeral "7\", 16)" 10).record 1 ∈
      (collecting.run [draw 0, numeral "7\", 16)" 10]).1.tracer.received := .tail _ (.head _)
  have hlogged : (numeral "7" 16).record 1 ∈
      (logging.run [draw 1, numeral "7" 16]).1.tracer.received := .tail _ (.head _)
  have hne : ((numeral "7\", 16)" 10).record 1).render {} ≠
      ((numeral "7" 16).record 1).render {} := by
    intro h
    injection trace_line_identifies_call.2 _ _ _ _ _ _ _ hcollected _ hlogged h with _ _ _ h
    injection h with h
    injection h with h
    exact absurd h (by decide)
  exact ⟨rfl, rfl, rfl, hargs, hdraws, hcollected, hlogged, by decide +kernel, hne⟩

end Backend

end PallasVesta
