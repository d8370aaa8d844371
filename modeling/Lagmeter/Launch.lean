import Lagmeter.CommandLine
import Lagmeter.Experiment.Run
import Lagmeter.Group.Star
import Lagmeter.Log.Console
import Lagmeter.Scene.Trial

/-!
# Launches

A launch reads a command line and runs all ranks of an experiment on one machine. Mistakes in the
settings end it before any rank starts. What fails on a rank later is counted in the end.
-/

namespace Lagmeter

structure Machine where
  host : String
  processors : Nat := 1
  /-- The time of the wall clock. -/
  wall : Nat
  files : Files := .empty
  /-- Where relative paths start. -/
  base : String := ""
  /-- Whether ranks can reach each other over the network. -/
  reachable : Bool := true
  draws : Draws := .ofSeed 1

namespace Launch

structure Ending where
  exit : Nat := 0
  /-- Why it failed. -/
  error : Option String := none
  /-- What was told, outside of the ranks or by one of them. -/
  events : List (Option Nat × Event) := []
  /-- What is shown of it. -/
  filter : Level := .info
  files : Files
  /-- Where the report is, if the launch came that far. -/
  output : Option String := none
  /-- The mistake in the command line. -/
  usage : Option UsageError := none

namespace Ending

/-- The line that is printed for an error. -/
def errorLine (e : Ending) : Option String := e.error.map fun reason => s!"Error: {reason}"

/-- The lines that are shown. What a rank told is marked with its number. -/
def lines (e : Ending) : List String :=
  e.events.flatMap fun (rank, event) =>
    Console.shown (some e.filter) false (rank.toList.map (Console.rankSpan .info)) [] event

end Ending

/-! ## The log file -/

/-- The directory and the name of a log file. -/
def logPlace (path : String) : Except Fault (String × String) :=
  match Path.fileName? path with
  | none => .error (.ofReason s!"Log file {path} has no file name")
  | some name => .ok ((Path.parent? path).getD "", name)

def openLog (m : Machine) (path : String) : Except Fault Files := do
  let (directory, name) ← logPlace path
  let directory := Path.join m.base directory
  match m.files.createDirectories directory with
  | .error e => throw ⟨[s!"Failed to create {directory}", e.message]⟩
  | .ok files => match files.append (Path.join directory name) [] with
    | .error e => throw (.ofReason e.message)
    | .ok files => return files

/-! ## The ranks -/

/-- Settings whose paths start where the machine says. -/
def placed (m : Machine) (s : Settings) : Settings :=
  { s with logDirectory := Path.join m.base s.logDirectory, output := Path.join m.base s.output }

def connectError? (m : Machine) (s : Settings) : Option GroupError :=
  if s.connection = .tcp ∧ 2 ≤ s.groupSize ∧ !m.reachable then
    some (Star.late s.groupSize [] s.connectTimeout)
  else none

abbrev RankResult := Option (Except Fault CycleOutcome)

/-- Runs the experiment on all ranks. A sample takes the delay of the settings to spread. -/
def ranks (m : Machine) (s : Settings) (fuel : Nat) :
    Schedule (Task (Except Fault CycleOutcome)) (Scene (TrialStore s.storage)) :=
  let scene := Trial.scene s.groupSize m.wall m.files s.storage { tick := s.delay.nanos }
  let program (rank : Nat) :=
    let member : Member := ⟨rank, s.groupSize, m.host⟩
    (Node.idle, Trial.member member (Experiment.perform member s fuel))
  { scene with draws := m.draws }.run fuel ((List.range s.groupSize).map program)

/-- Told about a rank that failed or is degraded. -/
def verdict (rank : Nat) : RankResult → List Event
  | some (.ok o) => o.failures.map fun f => ⟨.warn, s!"Rank {rank} {f.phase.title} phase: {f.message}"⟩
  | some (.error e) => [⟨.error, s!"Rank {rank} failed: {e.message}"⟩]
  | none => [⟨.error, s!"Rank {rank} failed: it waits for ever"⟩]

def hasFailed : RankResult → Bool
  | some (.ok _) => false
  | _ => true

def isDegraded : RankResult → Bool
  | some (.ok o) => o.degraded
  | _ => false

def opening (m : Machine) (s : Settings) : List Event := [
  ⟨.info, s!"Starting Replica Bench {version}"⟩,
  ⟨.info, s!"{s.groupSize} ranks ({m.processors} CPUs available): {s.storage.title} with {s.plan.maps} map(s) x {s.plan.readersPerMap} reader(s), {s.writes} writes at {Layout.plain.write s.rate}/s"⟩]

def closing (s : Settings) (results : List RankResult) : List Event :=
  let degraded := results.countP isDegraded
  (results.zipIdx.flatMap fun (r, rank) => verdict rank r) ++
    [⟨.info, s!"Per-participant logs are under {Path.join s.logDirectory s.effectiveTag}"⟩] ++
    (if results.any hasFailed then []
    else
      (if degraded = 0 then []
      else [⟨.warn, s!"{degraded} of {s.groupSize} ranks completed with phase failures"⟩]) ++
        [⟨.info, "Replica Bench completed"⟩])

def runRanks (m : Machine) (s : Settings) (fuel : Nat) : Ending :=
  let final := ranks m s fuel
  let results := (final.tasks.toList.take s.groupSize).map Task.result?
  let failed := results.countP hasFailed
  let outside (events : List Event) := events.map fun e => (none, e)
  { exit := if failed = 0 then 0 else 1
    error := if failed = 0 then none else some s!"{failed} of {s.groupSize} ranks failed"
    events := outside (opening m s ++ [Mesh.formed s.groupSize]) ++
      (final.world.events.toList.map fun (rank, e) => (some rank, e)) ++ outside (closing s results)
    files := final.world.files
    output := some s.output }

/-! ## The whole -/

def stopped (files : Files) (reason : String) : Ending := { exit := 1, error := some reason, files }

def runSettings (m : Machine) (s : Settings) (fuel : Nat) : Ending :=
  match s.validate with
  | .error e => stopped m.files e.message
  | .ok _ =>
    let s := placed m s
    match connectError? m s with
    | some e => stopped m.files e.message
    | none => runRanks m s fuel

def run (m : Machine) (arguments : List String) (fuel : Nat) : Ending :=
  match CommandLine.read arguments with
  | .error e => { exit := e.exitCode, files := m.files, usage := some e }
  | .ok a =>
    let ending := match a.logFile with
      | none => runSettings m a.settings fuel
      | some path => match openLog m path with
        | .error e => stopped m.files (e.reasons.headD "")
        | .ok files => runSettings { m with files } a.settings fuel
    { ending with filter := if a.verbose then .debug else .info }

end Launch

end Lagmeter
