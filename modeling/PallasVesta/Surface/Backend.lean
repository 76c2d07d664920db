import PallasVesta.Surface.Calls
import PallasVesta.Trace.Tracer

namespace PallasVesta

namespace Normalization

def debugText : Normalization → String
  | compatible => "Compatible"
  | exact => "Exact"

end Normalization

structure Settings where
  trace : Bool := false
  affine : Normalization := .compatible
deriving DecidableEq

instance : Inhabited Settings := ⟨{}⟩

namespace Settings

def withTrace (settings : Settings) (trace : Bool) : Settings := { settings with trace }

def withAffine (settings : Settings) (affine : Normalization) : Settings := { settings with affine }

def debugText (settings : Settings) : String :=
  Layout.inline.record "BackendConfig"
    [("trace", boolText settings.trace), ("affine", settings.affine.debugText)]

end Settings

inductive Call where
  | fp (call : FieldCall .fp)
  | fq (call : FieldCall .fq)
  | pallas (call : CurveCall .pallas)
  | vesta (call : CurveCall .vesta)
  | integer (call : IntegerCall)

namespace Call

def family : Call → String
  | fp _ => FieldParams.fp.name
  | fq _ => FieldParams.fq.name
  | pallas _ => CurveParams.pallas.name
  | vesta _ => CurveParams.vesta.name
  | integer _ => "bigint_256"

def op : Call → String
  | fp call => call.op
  | fq call => call.op
  | pallas call => call.op
  | vesta call => call.op
  | integer call => call.op

def args : Call → List Trace.Argument
  | fp call => call.args
  | fq call => call.args
  | pallas call => call.args
  | vesta call => call.args
  | integer call => call.args

def answer (normalization : Normalization) : Call → Except ArithmeticError Value
  | fp call => call.answer
  | fq call => call.answer
  | pallas call => .ok (call.answer normalization)
  | vesta call => .ok (call.answer normalization)
  | integer call => call.answer

end Call

structure Backend where
  settings : Settings
  tracer : Trace.Tracer

namespace Backend

def start (settings : Settings) (sink : Trace.Sink) : Backend where
  settings
  tracer := { enabled := settings.trace, sink }

def call (backend : Backend) (call : Call) : Backend × Except ArithmeticError Value :=
  backend.tracer.call call.family call.op call.args fun tracer =>
    ({ backend with tracer }, call.answer backend.settings.affine)

def run (backend : Backend) : List Call → Backend × List (Except ArithmeticError Value)
  | [] => (backend, [])
  | call :: calls =>
    let (backend, answer) := backend.call call
    let (backend, answers) := backend.run calls
    (backend, answer :: answers)

def debugText (backend : Backend) : String :=
  Layout.inline.record "Bindings"
    [("config", backend.settings.debugText), ("tracer", backend.tracer.debugText)]

end Backend

end PallasVesta
