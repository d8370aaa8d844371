import Lagmeter.Cycle.Collection
import Lagmeter.Cycle.Seat

/-!
# Test cycles

A cycle leads every rank through the phases of its node, with a barrier between them. A failure is
kept and does not end the cycle, so that no rank waits in vain: every rank takes part in every
collective step, whatever its own node does.
-/

namespace Lagmeter

structure CyclePlan where
  mode : SetupMode
  /-- Measured versions of each writer, the same on all ranks. -/
  slots : Nat
  /-- A bound on the rounds of a throttled setup. -/
  rounds : Nat

structure CycleOutcome where
  failures : List PhaseFailure
  /-- The report, on the root. -/
  aggregate : Option Aggregate
  node : Outcome

/-- A cycle in which something failed on this rank is degraded. -/
def CycleOutcome.degraded (o : CycleOutcome) : Bool := !o.failures.isEmpty

structure CycleState where
  /-- The number of the last collective operation. -/
  sequence : Nat
  node : NodeState := .created
  failures : List PhaseFailure := []

/-- A part of a cycle on one rank. -/
abbrev Cycle (α : Type) := StateT CycleState (Dialogue Seat) α

namespace Cycle

/-! ## Steps -/

def seat {α : Type} (d : Dialogue Seat α) : Cycle α := StateT.lift d

def log (level : Level) (text : String) : Cycle Unit := seat (Seat.log level text)

def group {α : Type} (c : Collective α) : Cycle (Except GroupError α) := do
  let s ← get
  let (result, sequence) ← seat (Seat.link (c.start s.sequence))
  set { s with sequence }
  return result

def fail (phase : Phase) (step reason : String) : Cycle Unit := do
  let message := s!"{step} failed: {reason}"
  log .error s!"{phase.title} phase: {message}"
  modify fun s => { s with failures := s.failures ++ [⟨phase, message⟩] }

/-- The result of a step if there is one. -/
def check {ε α : Type} (phase : Phase) (step : String) (reason : ε → String) :
    Except ε α → Cycle (Option α)
  | .ok a => return some a
  | .error e => do
    fail phase step (reason e)
    return none

def together {α : Type} (phase : Phase) (step : String) (c : Collective α) : Cycle (Option α) := do
  check phase step GroupError.message (← group c)

/-- A step of the node whose failure is kept. -/
def alone (phase : Phase) (step : String) (d : Dialogue Seat (Except Fault Unit)) : Cycle Unit := do
  let _ ← check phase step Fault.message (← seat d)

def enter (phase : Phase) (target : NodeState) : Cycle Unit := do
  match (← get).node.advance target with
  | .ok node => modify fun s => { s with node }
  | .error e => fail phase "lifecycle" e.message

/-- Every rank tells how far it is, the root also to people. -/
def status (m : Member) (text : String) : Cycle Unit := do
  log .debug text
  if m.isRoot then log .info text

/-! ## Setup -/

/-- The number of the next rank to set up, from what the root said. -/
def nextTurn (turn : Nat) : Option Int64 → Nat
  | some w => if w.toInt < 0 then turn + 1 else w.toInt.toNat
  | none => turn + 1

/-- The ranks set up one at a time, each in its turn. -/
def throttledSetup (m : Member) : (rounds turn : Nat) → Cycle Unit
  | 0, _ => return ()
  | rounds + 1, turn => do
    if m.size ≤ turn then return ()
    if turn = m.rank then
      log .debug s!"Setting up ({turn + 1} of {m.size})"
      alone .setup "node setup" (Seat.phase .setup)
    let _ ← together .setup "throttle barrier" (Collective.barrier m)
    let said ← together .setup "throttle broadcast"
      (Collective.broadcastValue m (Collection.word (turn + 1)) 0)
    let next := nextTurn turn said
    if m.isRoot then log .info s!"Setup {next} of {m.size} done"
    throttledSetup m rounds next

def setup (m : Member) (plan : CyclePlan) : Cycle Unit :=
  match plan.mode with
  | .parallel => do
    status m "Setting up"
    alone .setup "node setup" (Seat.phase .setup)
  | .throttled => throttledSetup m plan.rounds 0

/-! ## The whole -/

def barrier (m : Member) (phase : Phase) (step : String) : Cycle Unit := do
  let _ ← together phase step (Collective.barrier m)

/-- From the start to the end of the measurement. -/
def measure (m : Member) (plan : CyclePlan) : Cycle Unit := do
  status m s!"Starting test cycle as {(← seat Seat.role).text}"
  barrier m .start "start barrier"
  enter .setup .ready
  setup m plan
  barrier m .setup "setup barrier"
  status m "Starting measurement"
  enter .measurement .measured
  alone .measurement "node run" (Seat.phase .run)
  barrier m .measurement "measurement barrier"

/-- From the shutdown of the node to the end. -/
def conclude (m : Member) (plan : CyclePlan) (j : Journal) : Cycle (Option Aggregate × Outcome) := do
  status m "Shutting down"
  enter .shutdown .closed
  alone .shutdown "node shutdown" (Seat.phase .shutdown)
  enter .report .done
  alone .report "node report" (Seat.report j)
  status m "Aggregating results"
  let node ← seat Seat.outcome
  let aggregate ← together .aggregation "result aggregation" (Collection.collect m plan.slots node)
  barrier m .finish "final barrier"
  status m s!"Finished on {m.text}"
  return (aggregate.join, node)

def run (m : Member) (plan : CyclePlan) (j : Journal) : Cycle CycleOutcome := do
  measure m plan
  let (aggregate, node) ← conclude m plan j
  return { failures := (← get).failures, aggregate, node }

/-- The cycle of one rank after operation number `sequence`. -/
def start (m : Member) (plan : CyclePlan) (j : Journal) (sequence : Nat) :
    Dialogue Seat (CycleOutcome × Nat) := do
  let (outcome, s) ← StateT.run (run m plan j) { sequence }
  return (outcome, s.sequence)

end Cycle

end Lagmeter
