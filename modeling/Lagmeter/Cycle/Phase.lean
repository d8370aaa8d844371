import Lagmeter.Json.Record

/-!
# Phases of a test cycle
-/

namespace Lagmeter

inductive Phase where
  | start
  | setup
  | measurement
  | shutdown
  | report
  | aggregation
  | finish
  deriving DecidableEq, Repr, Inhabited

namespace Phase

def all : List Phase := [.start, .setup, .measurement, .shutdown, .report, .aggregation, .finish]

def title : Phase → String
  | .start => "start"
  | .setup => "setup"
  | .measurement => "measurement"
  | .shutdown => "shutdown"
  | .report => "report"
  | .aggregation => "result aggregation"
  | .finish => "finish"

def variant : Phase → String
  | .start => "Start"
  | .setup => "Setup"
  | .measurement => "Measurement"
  | .shutdown => "Shutdown"
  | .report => "Report"
  | .aggregation => "ResultAggregation"
  | .finish => "Finished"

def toJson (p : Phase) : Json := .ofText p.variant

def ofJson? (j : Json) : Option Phase := j.choice? (all.map fun p => (p.variant, p))

end Phase

structure PhaseFailure where
  phase : Phase
  message : String
  deriving DecidableEq, Repr, Inhabited

namespace PhaseFailure

def toJson (f : PhaseFailure) : Json :=
  .record [("phase", f.phase.toJson), ("message", .ofText f.message)]

def ofJson? (j : Json) : Option PhaseFailure := do
  match ← j.fields? ["phase", "message"] with
  | [phase, message] =>
    return ⟨← Json.required? Phase.ofJson? phase, ← Json.required? Json.text? message⟩
  | _ => none

end PhaseFailure

end Lagmeter
