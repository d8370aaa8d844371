import Lagmeter.Stats.Samples

/-!
# What a group measured
-/

namespace Lagmeter

/-- How the versions of one map reached its readers. -/
structure Delivery where
  map : Nat
  readers : Nat
  written : Nat
  /-- How many versions were seen by how many readers, by increasing number of readers. -/
  histogram : List (Nat × Nat)
  /-- The time until the last reader saw a version, of the versions that all of them saw. -/
  full : Option Summary
  deriving DecidableEq, Inhabited

namespace Delivery

def names : List String :=
  ["map_id", "readers", "versions_written", "delivery_histogram", "full_delivery"]

def toJson (d : Delivery) : Json :=
  .record [("map_id", .ofNat d.map), ("readers", .ofNat d.readers),
    ("versions_written", .ofNat d.written),
    ("delivery_histogram", .ofNumbered .ofNat d.histogram),
    ("full_delivery", .ofOption Summary.toJson d.full)]

def ofJson? (j : Json) : Option Delivery := do
  match ← j.fields? names with
  | [map, readers, written, histogram, full] =>
    return ⟨← Json.required? Json.word? map, ← Json.required? Json.word? readers,
      ← Json.required? Json.word? written,
      ← Json.required? (Json.numbered? Json.word?) histogram,
      ← Json.absent? Summary.ofJson? full⟩
  | _ => none

end Delivery

structure Aggregate where
  participants : Nat
  samplesPerRank : List Nat
  latency : Option Summary
  deliveries : List Delivery
  /-- From the earliest start to the latest end. -/
  wallClock : Option Nat
  invalid : Nat
  missed : Nat
  failures : Nat
  deriving DecidableEq, Inhabited

namespace Aggregate

def names : List String :=
  ["participants", "samples_per_rank", "latency", "propagation", "wall_clock_ns",
    "invalid_samples", "missed_versions", "store_failures"]

def toJson (a : Aggregate) : Json :=
  .record [("participants", .ofNat a.participants),
    ("samples_per_rank", .ofList .ofNat a.samplesPerRank),
    ("latency", .ofOption Summary.toJson a.latency),
    ("propagation", .ofList Delivery.toJson a.deliveries),
    ("wall_clock_ns", .ofOption .ofNat a.wallClock),
    ("invalid_samples", .ofNat a.invalid), ("missed_versions", .ofNat a.missed),
    ("store_failures", .ofNat a.failures)]

def ofJson? (j : Json) : Option Aggregate := do
  match ← j.fields? names with
  | [participants, samples, latency, deliveries, wallClock, invalid, missed, failures] =>
    return ⟨← Json.required? Json.word? participants,
      ← Json.required? (Json.items? Json.word?) samples,
      ← Json.absent? Summary.ofJson? latency,
      ← Json.required? (Json.items? Delivery.ofJson?) deliveries,
      ← Json.absent? Json.word? wallClock, ← Json.required? Json.word? invalid,
      ← Json.required? Json.word? missed, ← Json.required? Json.word? failures⟩
  | _ => none

end Aggregate

end Lagmeter
