import Lagmeter.Node.Reader
import Lagmeter.Node.Writer

/-!
# Nodes

The node of a rank takes part in a cycle in its role. An idle one does nothing. A stand-in does
what it is told, for trials of a cycle without a store.
-/

namespace Lagmeter

/-- The parts of a cycle that are a node's own. -/
inductive NodePhase where
  | setup
  | run
  | shutdown
  deriving DecidableEq, Repr

/-- A node that fails where it is told to. -/
structure StandIn where
  outcome : Outcome
  /-- How long its setup takes. -/
  delay : Span := ⟨0⟩
  setup : Option Fault := none
  run : Option Fault := none
  shutdown : Option Fault := none
  /-- What it writes to its log, and the failure after that. -/
  text : Option String := none
  report : Option Fault := none
  deriving Inhabited

inductive Node where
  | idle
  | writer (w : Writer)
  | reader (r : Reader)
  | standIn (s : StandIn)
  deriving Inhabited

namespace StandIn

def outcomeOf (s : StandIn) (fault : Option Fault) : Round StandIn :=
  .over s (fault.elim (.ok ()) .error)

def perform (s : StandIn) : NodePhase → Dialogue Work (Round StandIn)
  | .setup => do
    Work.sleep s.delay
    return s.outcomeOf s.setup
  | .run => return s.outcomeOf s.run
  | .shutdown => return s.outcomeOf s.shutdown

def pages (s : StandIn) : List Journal.Page :=
  s.text.toList.map fun text => { name := "mark", lines := [text] }

end StandIn

namespace Node

def role : Node → Role
  | .idle => .idle
  | .writer w => w.role
  | .reader r => r.role
  | .standIn s => s.outcome.role

def outcome : Node → Outcome
  | .idle => {}
  | .writer w => w.outcome
  | .reader r => r.outcome
  | .standIn s => s.outcome

/-! ## Phases -/

/-- Turns the rounds of a kind of node into rounds of nodes. -/
def rounds {σ : Type} (f : σ → Node) (d : Dialogue Work (Round σ)) : Dialogue Work (Round Node) := do
  return (← d).map f

def whole {σ : Type} (f : σ → Node) (d : Dialogue Work (σ × Except Fault Unit)) :
    Dialogue Work (Round Node) := do
  let (s, result) ← d
  return .over (f s) result

def start : NodePhase → Node → Dialogue Work (Round Node)
  | _, .idle => return .over .idle (.ok ())
  | .setup, .writer w => whole .writer w.setup
  | .run, .writer w => whole .writer w.run
  | .shutdown, .writer w => whole .writer w.shutdown
  | .setup, .reader r => rounds .reader r.openSetup
  | .run, .reader r => rounds .reader r.openRun
  | .shutdown, .reader r => rounds .reader r.shutdown
  | phase, .standIn s => rounds .standIn (s.perform phase)

def resume : NodePhase → Node → Dialogue Work (Round Node)
  | .setup, .reader r => rounds .reader r.setupRound
  | .run, .reader r => rounds .reader r.runRound
  | _, n => return .over n (.ok ())

/-! ## Report -/

/-- What the node writes to its logs, given the changes that its watcher was told of. -/
def pages (changes : Nat) : Node → List Journal.Page
  | .idle => []
  | .writer w => w.pages
  | .reader r => r.pages changes
  | .standIn s => s.pages

/-- The failure after a report that was written. -/
def reportFault? : Node → Option Fault
  | .standIn s => s.report
  | _ => none

def report (n : Node) (changes : Nat) (j : Journal) (files : Files) (now : Moment) :
    Journal.Filed :=
  let filed := j.file files now (n.pages changes)
  match filed.result, n.reportFault? with
  | .ok (), some fault => { filed with result := .error fault }
  | _, _ => filed

def listener? : Node → Option Nat
  | .reader r => r.listener
  | _ => none

end Node

end Lagmeter
