import Lagmeter.Cycle.Run
import Lagmeter.Experiment.Site
import Lagmeter.Group.Mesh
import Lagmeter.Log.Console

/-!
# Experiments

An experiment on one rank: the ranks agree on a name and on the background keys, writers open their
structures before readers subscribe to them, then there is a test cycle, and in the end the root
writes the report. A rank that cannot open its structure takes part with an idle node.
-/

namespace Lagmeter

/-- A part of an experiment on one rank. The state is the number of the last collective
operation. -/
abbrev Experiment (α : Type) := ExceptT Fault (StateT Nat (Dialogue Site)) α

namespace Experiment

/-! ## Steps -/

def site {α : Type} (d : Dialogue Site α) : Experiment α := ExceptT.lift (StateT.lift d)

def attempt {α : Type} (d : Dialogue Site (Except Fault α)) : Experiment α :=
  ExceptT.mk (StateT.lift d)

def log (level : Level) (text : String) : Experiment Unit := site (Site.log level text)

def group {α : Type} (c : Collective α) : Experiment (Except GroupError α) := do
  let (result, sequence) ← site (Site.link (c.start (← get)))
  set sequence
  return result

/-- A collective step without which there is no experiment. -/
def together {α : Type} (purpose : String) (c : Collective α) : Experiment α := do
  match ← group c with
  | .ok a => return a
  | .error e => throw ⟨purpose :: e.reasons⟩

def blocked {α : Type} : Except BlockError α → Experiment α
  | .ok a => return a
  | .error e => throw (.ofReason e.message)

/-! ## Agreements -/

/-- The name that the names of all structures start with: the one that is set, or one from the
root's clock. -/
def baseName (m : Member) (s : Settings) : Experiment String := do
  match s.mapName with
  | some name => return name
  | none =>
    let millis := (← site (Site.work Work.wallClock)) / 1000000
    let stamp ← together "Failed to agree on a structure name"
      (Collective.broadcastValue m (Collection.word millis) 0)
    return s!"auto{stamp.toInt}"

/-- The background keys: each rank draws its share, and all get all of them. -/
def distributeKeys (m : Member) (s : Settings) : Experiment (List Int) := do
  let blocks ← blocked (Blocks.ofRank s.tableSize m.size m.rank)
  let share ← site (Site.drawKeys blocks)
  let all ← together "Failed to exchange background keys"
    (Collective.allGather m (share.map Int64.ofInt))
  let keys ← blocked (blocks.compacted all)
  log .debug s!"Generated {blocks.share} of {keys.length} background keys"
  return keys.map Int64.toInt

/-! ## The node -/

/-- The name of the structure of a map. -/
def structureName (base : String) (map : Nat) : String := s!"{base}-{map}"

/-- Opens the structure of a writer before the ranks meet, that of a reader afterwards. -/
def openStructures (m : Member) (role : Role) (base : String) :
    Experiment (Except StoreError Unit) := do
  let first ← match role with
    | .writer map => site (Site.openStructure (structureName base map))
    | _ => pure (.ok ())
  together "Failed to synchronize after opening writer structures" (Collective.barrier m)
  match role with
  | .reader map => site (Site.openStructure (structureName base map))
  | _ => return first

/-- The node of a role whose structure is open. -/
def nodeOf (s : Settings) (role : Role) (base : String) (keys : List Int) : Experiment Node := do
  match role with
  | .idle => return .idle
  | .writer map => return .writer (.new map (structureName base map) keys s.writer)
  | .reader map =>
    return .reader (.new map (structureName base map) s.reader (← site Site.subscribe))

/-- Takes the node of a role, or an idle one if its structure cannot be opened. The answer is that
failure. -/
def takeNode (m : Member) (s : Settings) (role : Role) (base : String) (keys : List Int) :
    Experiment (Option PhaseFailure) := do
  match ← openStructures m role base with
  | .error e =>
    log .error s!"Failed to open structure for {role.text}: {e.message}"
    site (Site.play .idle)
    return some ⟨.start, s!"open structure failed: {e.message}"⟩
  | .ok () =>
    site (Site.play (← nodeOf s role base keys))
    if role ≠ .idle then log .info s!"Participating as {role.text}"
    return none

/-! ## The report -/

def linesOf (text : String) : List String :=
  let lines := Console.lines text
  if lines.getLast? = some "" then lines.dropLast else lines

def headline (summary : String) : String :=
  ", ".intercalate (((linesOf summary).drop 1).filter fun l => !"hdr ".isPrefixOf l)

/-- Tells what the summaries say, and counts them. -/
def tellSummaries : List String → Experiment Nat
  | [] => return 0
  | path :: rest => do
    let participant := ((Path.parent? path).bind Path.fileName?).getD ""
    let text ← attempt (Site.readLog path)
    log .info s!"{participant}: {headline text}"
    return (← tellSummaries rest) + 1

/-- Adds the number of reader summaries to a report, if they can be read. -/
def addSummaries (j : Journal) (r : Report) : Experiment Report := do
  let count : Experiment Nat := do tellSummaries (← attempt (Site.findLogs j "summary"))
  tryCatch (do return r.push "reader_summaries" (.ofNat (← count))) fun e => do
    log .warn s!"Could not collect reader summaries: {e.message}"
    return r

def tell : List Event → Experiment Unit
  | [] => return ()
  | e :: rest => do
    log e.level e.text
    tell rest

def report (s : Settings) (base : String) (j : Journal) (o : CycleOutcome) (degraded : Int64) :
    Experiment Unit := do
  let now ← site (Site.work Work.wallClock)
  let r := Report.ofResults j.tag s o.aggregate (decide (0 < degraded.toInt)) (.ofNanos now)
  let r := (r.push "structure_base_name" (.text base)).push "degraded_ranks" (.integer degraded)
  let r ← addSummaries j r
  tell r.summary
  attempt (Site.writeReport r s.output)

/-! ## The whole -/

/-- How many ranks are degraded, on the root. A rank that cannot be told counts itself only. -/
def degradedRanks (m : Member) (o : CycleOutcome) : Experiment Int64 := do
  let own : Int64 := if o.degraded then 1 else 0
  match ← group (Collective.reduceSum m own 0) with
  | .ok count => return count
  | .error e =>
    log .warn s!"Could not count degraded ranks: {e.message}"
    return own

/-- The test cycle of the node that was taken. -/
def cycle (m : Member) (s : Settings) (rounds : Nat) (j : Journal) : Experiment CycleOutcome := do
  let plan : CyclePlan := { mode := s.setupMode, slots := s.writes, rounds }
  let (outcome, sequence) ← site (Site.seat (Cycle.start m plan j (← get)))
  set sequence
  return outcome

def run (m : Member) (s : Settings) (rounds : Nat) : Experiment CycleOutcome := do
  match s.plan.validate m.size with
  | .error e => throw ⟨["Role assignment does not fit the group", e.message]⟩
  | .ok () => pure ()
  let role := s.plan.roleOf m.rank
  log .debug s!"Assigned role {role.text}"
  let base ← baseName m s
  let keys ← distributeKeys m s
  let failure ← takeNode m s role base keys
  let j : Journal := ⟨s.logDirectory, s.effectiveTag, m⟩
  let outcome ← cycle m s rounds j
  let outcome := { outcome with failures := failure.toList ++ outcome.failures }
  let degraded ← degradedRanks m outcome
  if m.isRoot then report s base j outcome degraded
  return outcome

/-- The experiment of a rank that has joined its group, and leaves it afterwards. -/
def perform (m : Member) (s : Settings) (rounds : Nat) :
    Dialogue Site (Except Fault CycleOutcome) := do
  let (result, _) ← StateT.run (ExceptT.run (run m s rounds)) 0
  let _ ← Site.link (Mesh.shut m)
  return result

end Experiment

end Lagmeter
