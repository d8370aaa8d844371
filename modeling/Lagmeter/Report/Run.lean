import Lagmeter.Fault
import Lagmeter.Files
import Lagmeter.Json.Writer
import Lagmeter.Log.Event
import Lagmeter.Report.Aggregate
import Lagmeter.Report.Metric
import Lagmeter.Settings
import Lagmeter.Time.Calendar

/-!
# Reports of a run

The root of a group reports a run: what was asked for, what was measured, and whether anything
failed. The report is shown metric by metric and written to a file.
-/

namespace Lagmeter

def version : String := "0.1.0"

structure Report where
  tag : String
  version : String
  time : Moment
  degraded : Bool
  metrics : List Metric
  aggregate : Option Aggregate
  deriving DecidableEq, Inhabited

namespace Report

def new (tag : String) (now : Moment) : Report := ⟨tag, Lagmeter.version, now, false, [], none⟩

def push (r : Report) (name : String) (value : MetricValue) : Report :=
  { r with metrics := r.metrics ++ [⟨name, value⟩] }

def get? (r : Report) (name : String) : Option MetricValue :=
  (r.metrics.find? (·.name = name)).map Metric.value

/-! ## From results -/

def latencyMetrics (name : String) (s : Summary) : List Metric := [
  ⟨name ++ "_count", .ofNat s.count⟩,
  ⟨name ++ "_mean_ns", .real s.mean⟩,
  ⟨name ++ "_stdev_ns", .real s.deviation⟩,
  ⟨name ++ "_p90_ns", .ofNat s.p90⟩,
  ⟨name ++ "_p95_ns", .ofNat s.p95⟩,
  ⟨name ++ "_p99_ns", .ofNat s.p99⟩,
  ⟨name ++ "_p9999_ns", .ofNat s.p9999⟩]

def settingsMetrics (s : Settings) : List Metric := [
  ⟨"storage", .text s.storage.title⟩,
  ⟨"group_size", .ofNat s.groupSize⟩,
  ⟨"maps", .ofNat s.plan.maps⟩,
  ⟨"readers_per_map", .ofNat s.plan.readersPerMap⟩,
  ⟨"table_size", .ofNat s.tableSize⟩,
  ⟨"write_count", .ofNat s.writes⟩,
  ⟨"write_rate", .real s.rate⟩]

def optional (name : String) : Option Nat → List Metric
  | none => []
  | some n => [⟨name, .ofNat n⟩]

def aggregateMetrics (a : Aggregate) : List Metric :=
  [⟨"participants", .ofNat a.participants⟩, ⟨"total_samples", .ofNat (a.samplesPerRank.foldr (· + ·) 0)⟩] ++
    (a.latency.toList.flatMap (latencyMetrics "latency")) ++
    optional "wall_clock_ns" a.wallClock ++
    [⟨"invalid_samples", .ofNat a.invalid⟩, ⟨"missed_versions", .ofNat a.missed⟩,
      ⟨"store_failures", .ofNat a.failures⟩] ++
    a.deliveries.flatMap fun d => d.full.toList.flatMap (latencyMetrics s!"map{d.map}_full_delivery")

def ofResults (tag : String) (settings : Settings) (aggregate : Option Aggregate)
    (degraded : Bool) (now : Moment) : Report :=
  { new tag now with
    degraded
    metrics := settingsMetrics settings ++ aggregate.toList.flatMap aggregateMetrics
    aggregate }

/-! ## Showing and writing -/

def summary (r : Report) : List Event :=
  ⟨.info, s!"=== Results for {r.tag} ==="⟩ ::
    (if r.degraded then
      [⟨.info, "Run was degraded: some participants reported phase failures"⟩]
    else []) ++
    r.metrics.map fun m => ⟨.info, m.line⟩

def toJson (r : Report) : Json :=
  .record [("tag", .ofText r.tag), ("version", .ofText r.version),
    ("timestamp", .ofText r.time.stamp), ("degraded", .ofBool r.degraded),
    ("metrics", .ofList Metric.toJson r.metrics),
    ("aggregate", .ofOption Aggregate.toJson r.aggregate)]

def names : List String := ["tag", "version", "timestamp", "degraded", "metrics", "aggregate"]

def ofJson? (j : Json) : Option Report := do
  match ← j.fields? names with
  | [tag, version, time, degraded, metrics, aggregate] =>
    return ⟨← Json.required? Json.text? tag, ← Json.required? Json.text? version,
      ← (Json.required? Json.text? time).bind Moment.read?,
      ← Json.required? Json.bool? degraded,
      ← Json.required? (Json.items? Metric.ofJson?) metrics,
      ← Json.absent? Aggregate.ofJson? aggregate⟩
  | _ => none

def text (r : Report) : String := r.toJson.prettyText

def read? (s : String) : Option Report := (Json.read? s).bind ofJson?

structure Written where
  result : Except Fault Unit
  files : Files
  events : List Event

/-- Creates the directory of a file unless the file lies where the program runs. -/
def prepare (files : Files) (path : String) : Except Fault Files :=
  match Path.parent? path with
  | none => .ok files
  | some "" => .ok files
  | some parent => match files.createDirectories parent with
    | .ok files => .ok files
    | .error e => .error ⟨[s!"Failed to create output directory {parent}", e.message]⟩

def write (r : Report) (files : Files) (path : String) : Written :=
  match prepare files path with
  | .error f => ⟨.error f, files, []⟩
  | .ok files => match files.write path (Utf8.encode r.text) with
    | .error e => ⟨.error ⟨[s!"Failed to create output file {path}", e.message]⟩, files, []⟩
    | .ok files => ⟨.ok (), files, [⟨.info, s!"Results written to {path}"⟩]⟩

end Report

end Lagmeter
