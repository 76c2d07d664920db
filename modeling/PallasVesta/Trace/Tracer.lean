import PallasVesta.Trace.Record

namespace PallasVesta.Trace

inductive Sink where
  | collect
  | log
deriving DecidableEq, Repr

def Sink.debugText : Sink → String
  | collect => "Collect"
  | log => "LogSink"

structure Tracer where
  enabled : Bool
  next : UInt64 := 0
  sink : Sink
  received : List Record := []

namespace Tracer

def record (tracer : Tracer) (family op : String) (args : List Argument) : Tracer :=
  if tracer.enabled then
    { tracer with
      next := tracer.next + 1
      received := tracer.received ++ [⟨tracer.next, family, op, args⟩] }
  else tracer

/-- Records a call and runs its body with the tracer as it then is. -/
def call {α : Type} (tracer : Tracer) (family op : String) (args : List Argument)
    (body : Tracer → α) : α :=
  body (tracer.record family op args)

def debugText (tracer : Tracer) : String :=
  Layout.inline.record "Tracer"
    [("enabled", boolText tracer.enabled), ("next_seq", toString tracer.next.toNat),
      ("sink", tracer.sink.debugText)]

end Tracer

inductive LogLevel where
  | off
  | error
  | warn
  | info
  | debug
  | trace
deriving DecidableEq, Repr

namespace LogLevel

def rank : LogLevel → Nat
  | off => 0
  | error => 1
  | warn => 2
  | info => 3
  | debug => 4
  | trace => 5

def name : LogLevel → String
  | off => "OFF"
  | error => "ERROR"
  | warn => "WARN"
  | info => "INFO"
  | debug => "DEBUG"
  | trace => "TRACE"

end LogLevel

structure LogLine where
  target : String
  level : LogLevel
  text : String

def Record.logLine? (limit : LogLevel) (record : Record) : Option LogLine :=
  if LogLevel.debug.rank ≤ limit.rank then
    some ⟨"pasta_fallback::trace", .debug, record.render {}⟩
  else none

end PallasVesta.Trace
