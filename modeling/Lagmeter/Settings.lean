import Lagmeter.Roles
import Lagmeter.Structure
import Lagmeter.Time.Span

/-!
# Settings of an experiment

Every participant of an experiment has the same settings. They are checked before the first
barrier.
-/

namespace Lagmeter

/-- How the participants take turns in their setup. -/
inductive SetupMode where
  /-- One after the other, by rank. -/
  | throttled
  /-- All at once. -/
  | parallel
  deriving DecidableEq, Repr, Inhabited

namespace SetupMode

def all : List SetupMode := [.throttled, .parallel]

def option : SetupMode → String
  | .throttled => "throttled"
  | .parallel => "parallel"

def variant : SetupMode → String
  | .throttled => "Throttled"
  | .parallel => "Parallel"

def ofOption? (name : String) : Option SetupMode := all.find? (·.option = name)

def toJson (m : SetupMode) : Json := .ofText m.variant

def ofJson? (j : Json) : Option SetupMode := j.choice? (all.map fun m => (m.variant, m))

end SetupMode

inductive Connection where
  | mesh
  | tcp
  deriving DecidableEq, Repr, Inhabited

namespace Connection

def all : List Connection := [.mesh, .tcp]

def option : Connection → String
  | .mesh => "local"
  | .tcp => "tcp"

def variant : Connection → String
  | .mesh => "Local"
  | .tcp => "Tcp"

def ofOption? (name : String) : Option Connection := all.find? (·.option = name)

def toJson (c : Connection) : Json := .ofText c.variant

def ofJson? (j : Json) : Option Connection := j.choice? (all.map fun c => (c.variant, c))

end Connection

/-! ## What writers and readers need to know -/

structure WriterSettings where
  writes : Nat
  warmup : Nat
  /-- Writes per second. -/
  rate : Double
  interval : Span
  deriving DecidableEq, Inhabited

/-- Writes in one interval, to the nearest whole number. -/
def WriterSettings.perInterval (w : WriterSettings) : Nat :=
  (Double.ofFloat (w.rate.toFloat * Double.floatOfNat w.interval.micros / 1000000)).nearestWord

structure ReaderSettings where
  writes : Nat
  warmup : Nat
  /-- The silence after which the writer is taken to have finished. No time means no end. -/
  timeout : Span
  endOnRepeat : Bool
  deriving DecidableEq, Inhabited

/-! ## The whole -/

structure Settings where
  storage : Structure := .arpMergedMap
  groupSize : Nat := 4
  plan : RolePlan := ⟨1, 2⟩
  tableSize : Nat := 100
  writes : Nat := 50
  warmup : Nat := 10
  rate : Double := .ofNat 10
  interval : Span := .ofMillis 100
  timeout : Span := .ofSeconds 120
  endOnRepeat : Bool := false
  setupMode : SetupMode := .throttled
  delay : Span := .ofMillis 1
  mapName : Option String := none
  tag : Option String := none
  logDirectory : String := "replica-bench-logs"
  output : String := "replica_bench_results.json"
  connection : Connection := .mesh
  host : String := "127.0.0.1"
  port : Nat := 0
  connectTimeout : Span := .ofSeconds 30
  deriving Inhabited

inductive SettingsError where
  | shortage (s : Shortage)
  | noNodes
  | noMaps
  | noWrites
  | badRate (rate : Double)
  | noInterval
  | emptyIntervals (rate : Double) (interval : Span)
  | namelessMap
  deriving DecidableEq

namespace SettingsError

def message : SettingsError → String
  | .shortage s => s.message
  | .noNodes => invalid "the group needs at least one node"
  | .noMaps => invalid "at least one map is required"
  | .noWrites => invalid "write count must be positive"
  | .badRate rate => invalid s!"write rate must be positive, got {Layout.plain.write rate}"
  | .noInterval => invalid "interval must be positive"
  | .emptyIntervals rate interval =>
    invalid s!"{Layout.plain.write rate} writes/s over {interval.exact} is less than one write per interval"
  | .namelessMap => invalid "map name cannot be empty"
where
  invalid (reason : String) : String := "invalid configuration: " ++ reason

end SettingsError

namespace Settings

def writer (s : Settings) : WriterSettings := ⟨s.writes, s.warmup, s.rate, s.interval⟩

def reader (s : Settings) : ReaderSettings := ⟨s.writes, s.warmup, s.timeout, s.endOnRepeat⟩

/-- The first thing that is wrong, in a fixed order. -/
def validate (s : Settings) : Except SettingsError Unit :=
  if s.groupSize = 0 then .error .noNodes
  else if s.plan.maps = 0 then .error .noMaps
  else if s.writes = 0 then .error .noWrites
  else if !s.rate.isFinite || s.rate.toFloat ≤ 0 then .error (.badRate s.rate)
  else if s.interval.isZero then .error .noInterval
  else if s.writer.perInterval = 0 then .error (.emptyIntervals s.rate s.interval)
  else if s.mapName = some "" then .error .namelessMap
  else match s.plan.validate s.groupSize with
    | .ok () => .ok ()
    | .error shortage => .error (.shortage shortage)

/-- The tag of an experiment that was given none. -/
def defaultTag (s : Settings) : String :=
  s!"{s.storage.label}-{s.plan.maps}m-{s.plan.readersPerMap}r-{s.writes}w"

def effectiveTag (s : Settings) : String := s.tag.getD s.defaultTag

end Settings

end Lagmeter
