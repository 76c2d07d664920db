import Mathlib.Algebra.Group.Nat.Defs
import Mathlib.Data.List.Forall2
import PallasVesta.Surface.Backend

namespace PallasVesta

open Trace

/-- What the functions on a field give for the name of an operation and its arguments. -/
inductive FieldElement.Gives (M : FieldParams) :
    String → List Argument → Except ArithmeticError Value → Prop where
  | size : Gives M "size" [] (.ok (.integer M.modulus))
  | sizeInBits : Gives M "size_in_bits" [] (.ok (.number 255))
  | add (a b : FieldElement M) :
      Gives M "add" [.element a, .element b] (.ok (.element (a + b)))
  | sub (a b : FieldElement M) :
      Gives M "sub" [.element a, .element b] (.ok (.element (a - b)))
  | negate (a : FieldElement M) : Gives M "negate" [.element a] (.ok (.element (-a)))
  | mul (a b : FieldElement M) :
      Gives M "mul" [.element a, .element b] (.ok (.element (a * b)))
  | div (a b : FieldElement M) :
      Gives M "div" [.element a, .element b] ((a.div b).map .element)
  | inverse (a : FieldElement M) : Gives M "inv" [.element a] (a.inverse.map .element)
  | square (a : FieldElement M) : Gives M "square" [.element a] (.ok (.element a.square))
  | pow (a : FieldElement M) (exponent : UInt256) :
      Gives M "pow" [.element a, .integer exponent] (.ok (.element (a.pow exponent)))
  | isSquare (a : FieldElement M) : Gives M "is_square" [.element a] (.ok (.flag a.isSquare))
  | sqrt (a : FieldElement M) : Gives M "sqrt" [.element a] (.ok (.element? a.sqrt))
  | ofInt (n : Int64) :
      Gives M "of_int" [.int n.toInt] (.ok (.element (.ofInt64 n : FieldElement M)))
  | ofDecimal (text : String) : Gives M "of_decimal_string" [.text text]
      ((FieldElement.ofDecimal text : Except _ (FieldElement M)).map .element)
  | toDecimal (a : FieldElement M) : Gives M "to_string" [.element a] (.ok (.text a.toDecimal))
  | compare (a b : FieldElement M) :
      Gives M "compare" [.element a, .element b] (.ok (.order (a.compare b)))
  | equal (a b : FieldElement M) :
      Gives M "equal" [.element a, .element b] (.ok (.flag (decide (a = b))))
  | random (entropy : ByteStream) :
      Gives M "random" [] (.ok (.element (.ofStream entropy : FieldElement M)))
  | ofSeed (seed : UInt64) :
      Gives M "rng" [.int seed.toNat] (.ok (.element (.ofSeed seed : FieldElement M)))
  | toInteger (a : FieldElement M) : Gives M "to_bigint" [.element a] (.ok (.integer a.value))
  | ofInteger (value : UInt256) : Gives M "of_bigint" [.integer value]
      ((FieldElement.ofInteger value : Except _ (FieldElement M)).map .element)
  | twoAdicRoot :
      Gives M "two_adic_root_of_unity" [] (.ok (.element (.twoAdicRoot : FieldElement M)))
  | domainGenerator (log2Size : Nat) : Gives M "domain_generator" [.int log2Size]
      ((FieldElement.domainGenerator log2Size : Except _ (FieldElement M)).map .element)
  | toBytes (a : FieldElement M) :
      Gives M "to_bytes" [.element a] (.ok (.bytes a.toBytes.toList))
  | ofBytes (bytes : List UInt8) : Gives M "of_bytes" [.bytes bytes]
      ((FieldElement.ofByteList bytes : Except _ (FieldElement M)).map .element)
  | copy (a : FieldElement M) : Gives M "deep_copy" [.element a] (.ok (.element a))

inductive JacobianPoint.Gives (C : CurveParams) (normalization : Normalization) :
    String → List Argument → Value → Prop where
  | one : Gives C normalization "one" [] (.point (.generator : JacobianPoint C))
  | add (p q : JacobianPoint C) :
      Gives C normalization "add" [.point p, .point q] (.point (p.add q))
  | sub (p q : JacobianPoint C) :
      Gives C normalization "sub" [.point p, .point q] (.point (p.sub q))
  | negate (p : JacobianPoint C) : Gives C normalization "negate" [.point p] (.point p.negate)
  | double (p : JacobianPoint C) : Gives C normalization "double" [.point p] (.point p.double)
  | scale (p : JacobianPoint C) (k : FieldElement C.scalar) :
      Gives C normalization "scale" [.point p, .element k] (.point (p.scale k))
  | endoBase : Gives C normalization "endo_base" [] (.element C.endoBaseElement)
  | endoScalar : Gives C normalization "endo_scalar" [] (.element C.endoScalarElement)
  | toAffine (p : JacobianPoint C) :
      Gives C normalization "to_affine" [.point p] (.affine (p.toAffine normalization))
  | ofCoordinates (x y : FieldElement C.base) :
      Gives C normalization "of_affine_coordinates" [.element x, .element y]
        (.point (.ofCoordinates x y : JacobianPoint C))
  | random (entropy : ByteStream) :
      Gives C normalization "random" [] (.point (.ofStream entropy : JacobianPoint C))
  | ofSeed (seed : UInt64) :
      Gives C normalization "rng" [.int seed.toNat] (.point (.ofSeed seed : JacobianPoint C))

inductive UInt256.Gives : String → List Argument → Except ArithmeticError Value → Prop where
  | limbCount : Gives "num_limbs" [] (.ok (.number 4))
  | bytesPerLimb : Gives "bytes_per_limb" [] (.ok (.number 8))
  | ofBytes (bytes : List UInt8) :
      Gives "of_bytes" [.bytes bytes] ((UInt256.ofByteList bytes).map .integer)
  | toBytes (a : UInt256) :
      Gives "to_bytes" [.integer a] ((a.toByteList (some 32)).map .bytes)
  | ofDecimal (text : String) :
      Gives "of_decimal_string" [.text text] ((UInt256.ofDecimal text).map .integer)
  | ofNumeral (text : String) (radix : Nat) :
      Gives "of_numeral" [.text text, .int radix] ((UInt256.ofNumeral text radix).map .integer)
  | toDecimal (a : UInt256) : Gives "to_string" [.integer a] (.ok (.text a.toDecimal))
  | testBit (a : UInt256) (index : Nat) :
      Gives "test_bit" [.integer a, .int index] (.ok (.flag (a.bit index)))
  | compare (a b : UInt256) :
      Gives "compare" [.integer a, .integer b] (.ok (.order (a.compare b)))
  | div (a b : UInt256) :
      Gives "div" [.integer a, .integer b] ((a.divMod b).map fun result => .integer result.1)
  | copy (a : UInt256) : Gives "deep_copy" [.integer a] (.ok (.integer a))

/-- What the function gives that a family and the name of one of its operations stand for. -/
inductive Backend.Gives (normalization : Normalization) :
    String → String → List Argument → Except ArithmeticError Value → Prop where
  | fp {op : String} {args : List Argument} {answer : Except ArithmeticError Value} :
      FieldElement.Gives .fp op args answer → Gives normalization "pasta_fp" op args answer
  | fq {op : String} {args : List Argument} {answer : Except ArithmeticError Value} :
      FieldElement.Gives .fq op args answer → Gives normalization "pasta_fq" op args answer
  | pallas {op : String} {args : List Argument} {value : Value} :
      JacobianPoint.Gives .pallas normalization op args value →
        Gives normalization "pallas" op args (.ok value)
  | vesta {op : String} {args : List Argument} {value : Value} :
      JacobianPoint.Gives .vesta normalization op args value →
        Gives normalization "vesta" op args (.ok value)
  | integer {op : String} {args : List Argument} {answer : Except ArithmeticError Value} :
      UInt256.Gives op args answer → Gives normalization "bigint_256" op args answer

theorem FieldCall.gives {M : FieldParams} (call : FieldCall M) :
    FieldElement.Gives M call.op call.args call.answer := by
  cases call <;> constructor

theorem CurveCall.gives {C : CurveParams} (normalization : Normalization) (call : CurveCall C) :
    JacobianPoint.Gives C normalization call.op call.args (call.answer normalization) := by
  cases call <;> constructor

theorem IntegerCall.gives (call : IntegerCall) :
    UInt256.Gives call.op call.args call.answer := by
  cases call <;> constructor

namespace Call

theorem gives (normalization : Normalization) (call : Call) : Backend.Gives normalization
    call.family call.op call.args (call.answer normalization) := by
  cases call with
  | fp call => exact .fp call.gives
  | fq call => exact .fq call.gives
  | pallas call => exact .pallas (call.gives normalization)
  | vesta call => exact .vesta (call.gives normalization)
  | integer call => exact .integer call.gives

theorem answer_eq_of_op_ne {call : Call} (h : call.op ≠ "to_affine")
    (normalization other : Normalization) : call.answer normalization = call.answer other := by
  have hcurve {C : CurveParams} (call : CurveCall C) (h : call.op ≠ "to_affine") :
      call.answer normalization = call.answer other := by
    cases call with
    | toAffine p => exact absurd rfl h
    | _ => rfl
  cases call with
  | fp call | fq call | integer call => rfl
  | pallas call | vesta call => exact congrArg Except.ok (hcurve call h)

end Call

namespace Trace.Tracer

def recordCalls (tracer : Tracer) (calls : List Call) : Tracer :=
  calls.foldl (fun tracer call => tracer.record call.family call.op call.args) tracer

theorem recordCalls_of_disabled {tracer : Tracer} (h : tracer.enabled = false)
    (calls : List Call) : tracer.recordCalls calls = tracer := by
  induction calls with
  | nil => rfl
  | cons call calls ih =>
      have hrecord : tracer.record call.family call.op call.args = tracer := by
        rw [record, h, if_neg Bool.false_ne_true]
      rwa [recordCalls, List.foldl_cons, hrecord]

theorem recordCalls_of_enabled {tracer : Tracer} (h : tracer.enabled = true)
    (calls : List Call) : tracer.recordCalls calls =
      { tracer with
        next := tracer.next + .ofNat calls.length
        received := tracer.received ++ calls.mapIdx fun i call =>
          ⟨tracer.next + .ofNat i, call.family, call.op, call.args⟩ } := by
  induction calls generalizing tracer with
  | nil => simp [recordCalls]
  | cons call calls ih =>
      have hnext (i : Nat) : tracer.next + 1 + .ofNat i = tracer.next + .ofNat (i + 1) := by
        rw [UInt64.ofNat_add, UInt64.add_assoc, UInt64.add_comm 1]
        rfl
      have henabled : (tracer.record call.family call.op call.args).enabled = true := by
        rwa [record, if_pos h]
      rw [recordCalls, List.foldl_cons, ← recordCalls, ih henabled, record, if_pos h]
      simp [hnext, List.mapIdx_cons]

end Trace.Tracer

namespace Backend

theorem call_eq (backend : Backend) (call : Call) : backend.call call =
    ({ backend with tracer := backend.tracer.record call.family call.op call.args },
      call.answer backend.settings.affine) :=
  rfl

theorem run_eq (backend : Backend) (calls : List Call) : backend.run calls =
    ({ backend with tracer := backend.tracer.recordCalls calls },
      calls.map (Call.answer backend.settings.affine)) := by
  induction calls generalizing backend with
  | nil => rfl
  | cons call calls ih =>
      rw [run, call_eq]
      dsimp only
      rw [ih]
      rfl

/-- Each call is answered as its function answers, whatever is traced and whoever receives it, and
but for `to_affine` whatever the normalization. Traced calls are numbered in order from zero, each
with its family, its name and its arguments, also where the answer is an error. -/
theorem run_answers_and_records (settings : Settings) (sink : Sink) (calls : List Call) :
    List.Forall₂ (fun call => Gives settings.affine call.family call.op call.args) calls
      ((start settings sink).run calls).2 ∧
    (∀ (trace : Bool) (other : Sink), ((start (settings.withTrace trace) other).run calls).2 =
      ((start settings sink).run calls).2) ∧
    (∀ (affine : Normalization) (i : Nat) (call : Call), calls[i]? = some call →
      call.op ≠ "to_affine" → ((start (settings.withAffine affine) sink).run calls).2[i]? =
        ((start settings sink).run calls).2[i]?) ∧
    (settings.trace = true → calls.length < 2 ^ 64 →
      ((start settings sink).run calls).1.tracer.next.toNat = calls.length ∧
      ((start settings sink).run calls).1.tracer.received.map
          (fun record => (record.seq.toNat, record.family, record.op, record.args)) =
        calls.mapIdx fun i call => (i, call.family, call.op, call.args)) ∧
    (settings.trace = false →
      ((start settings sink).run calls).1.tracer.next = 0 ∧
      ((start settings sink).run calls).1.tracer.received = []) := by
  simp only [run_eq]
  refine ⟨?_, ?_, ?_, ?_, ?_⟩
  · rw [List.forall₂_map_right_iff, List.forall₂_same]
    exact fun call _ => call.gives settings.affine
  · intro trace other
    rfl
  · intro affine i call hcall hop
    rw [List.getElem?_map, List.getElem?_map, hcall]
    exact congrArg some (Call.answer_eq_of_op_ne hop affine settings.affine)
  · intro htrace hlength
    have henabled : (start settings sink).tracer.enabled = true := htrace
    have hseq (n : Nat) (hn : n ≤ calls.length) :
        ((start settings sink).tracer.next + .ofNat n).toNat = n := by
      rw [start, UInt64.zero_add, UInt64.toNat_ofNat', Nat.mod_eq_of_lt (by omega)]
    rw [Tracer.recordCalls_of_enabled henabled]
    refine ⟨hseq _ (Nat.le_refl _), ?_⟩
    apply List.ext_getElem
    · simp [start]
    · intro i hi hcalls
      rw [List.length_mapIdx] at hcalls
      simp only [List.getElem_map, start, List.nil_append, List.getElem_mapIdx, Prod.mk.injEq,
        and_true]
      exact hseq i (Nat.le_of_lt hcalls)
  · intro htrace
    rw [Tracer.recordCalls_of_disabled htrace]
    exact ⟨rfl, rfl⟩

theorem run_inverse_of_zero :
    let calls : List Call := [.fp (.inverse 0), .pallas (.toAffine .generator), .integer .limbCount]
    let settings : Settings := ⟨true, .compatible⟩
    settings.trace = true ∧ calls.length < 2 ^ 64 ∧
      ((start settings .collect).run calls).2[0]? = some (.error .uninvertible) ∧
      ((start (settings.withAffine .exact) .collect).run calls).2[0]? =
        ((start settings .collect).run calls).2[0]? ∧
      ((start settings .collect).run calls).1.tracer.next.toNat = 3 ∧
      ((start settings .collect).run calls).1.tracer.received.map
          (fun record => (record.seq.toNat, record.family, record.op, record.args)) =
        [(0, "pasta_fp", "inv", [.element (0 : Fp)]),
          (1, "pallas", "to_affine", [.point (.generator : JacobianPoint .pallas)]),
          (2, "bigint_256", "num_limbs", [])] ∧
      (settings.withTrace false).trace = false ∧
      ((start (settings.withTrace false) .collect).run calls).1.tracer.received = [] := by
  intro calls settings
  have h := run_answers_and_records settings .collect calls
  have hsilent := run_answers_and_records (settings.withTrace false) .collect calls
  have hlength : calls.length < 2 ^ 64 := by decide
  refine ⟨rfl, hlength, ?_, ?_, (h.2.2.2.1 rfl hlength).1, (h.2.2.2.1 rfl hlength).2, rfl,
    (hsilent.2.2.2.2 rfl).2⟩
  · rfl
  · exact h.2.2.1 .exact 0 (.fp (.inverse 0)) rfl (by decide)

end Backend

end PallasVesta
