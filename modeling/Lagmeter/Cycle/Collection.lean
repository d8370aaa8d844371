import Lagmeter.Cycle.Deliveries
import Lagmeter.Group.Collective
import Lagmeter.Node.Outcome

/-!
# Collection

The ranks of a group bring their outcomes together, and the root makes one report of them. All
ranks take the same ten collective steps. Latencies travel in lists of one length, filled up with
zeros, and the root cuts each list to the length that its rank had.
-/

namespace Lagmeter.Collection

/-! ## Words -/

/-- The word of a number of 64 bits. -/
def word (n : Nat) : Int64 := (UInt64.ofNat n).toInt64

def number (w : Int64) : Nat := w.toUInt64.toNat

/-- The role as two words: its kind and its map. -/
def roleWords : Role → List Int64
  | .idle => [0, -1]
  | .writer map => [1, word map]
  | .reader map => [2, word map]

/-- The role of two words. Words that stand for none mean an idle rank. -/
def roleOf (kind map : Int64) : Role :=
  if map.toInt < 0 then .idle
  else if kind = 1 then .writer map.toInt.toNat
  else if kind = 2 then .reader map.toInt.toNat
  else .idle

/-- A list of exactly `length` words: cut, or filled up with zeros. -/
def padded (length : Nat) (ns : List Nat) : List Int64 :=
  (ns.map word).take length ++ List.replicate (length - ns.length) 0

structure Header where
  count : Nat
  role : Role
  deriving DecidableEq, Repr

/-- The count and the role of every rank. No rank has more samples than were sent. -/
def headers (common : Nat) : List Int64 → List Header
  | count :: kind :: map :: rest =>
    ⟨min count.toInt.toNat common, roleOf kind map⟩ :: headers common rest
  | _ => []

def rows (width : Nat) (words : List Int64) : Nat → List (List Int64)
  | 0 => []
  | n + 1 => words.take width :: rows width (words.drop width) n

/-! ## The report -/

structure Gathered where
  common : Nat
  header : List Int64
  samples : List Int64
  times : List Int64
  earliest : Int64
  latest : Int64
  invalid : Int64
  missed : Int64
  failures : Int64

namespace Gathered

variable (g : Gathered)

/-- The latencies of all ranks in their order, without what filled them up. -/
def latencies (headers : List Header) : List Nat :=
  (headers.zip (rows g.common g.samples headers.length)).flatMap fun (h, row) =>
    (row.take h.count).map number

/-- The role of every rank that has a row of times. -/
def timesOf (slots : Nat) (headers : List Header) : List (Role × List Int64) :=
  if slots = 0 then []
  else (headers.map Header.role).zip (rows slots g.times headers.length)

/-- From the earliest start to the latest end, if there are both and some time passed. -/
def wallClock : Option Nat :=
  if g.earliest ≠ Collective.maxWord ∧ g.earliest.toInt < g.latest.toInt then
    some (g.latest.toInt - g.earliest.toInt).toNat
  else none

def report (size slots : Nat) : Aggregate :=
  let hs := headers g.common g.header
  { participants := size
    samplesPerRank := hs.map Header.count
    latency := (Samples.ofList (g.latencies hs)).toOption.map Samples.summary
    deliveries := Delivery.ofRanks slots (g.timesOf slots hs)
    wallClock := g.wallClock
    invalid := g.invalid.toInt.toNat
    missed := g.missed.toInt.toNat
    failures := g.failures.toInt.toNat }

end Gathered

/-! ## The steps -/

/-- The report is made where everything was gathered. -/
def conclude (m : Member) (slots : Nat) (g : Gathered) : Collective (Option Aggregate) := do
  let report := g.report m.size slots
  if report.latency = none then
    Collective.log .warn s!"No latency statistics: {StatsError.empty.message}"
  return some report

/-- The length that all lists of latencies get: that of the longest. -/
def agreeLength (m : Member) (length : Nat) : Collective Nat := do
  let common ← Collective.broadcastValue m (← Collective.reduceMax m (word length) 0) 0
  if common.toInt < 0 then throw (.collective (.badLength common))
  return common.toInt.toNat

/-- Brings the outcomes of all ranks together. Only the root gets the report. -/
def collect (m : Member) (slots : Nat) (o : Outcome) : Collective (Option Aggregate) := do
  let count := o.latencies.length
  let common ← agreeLength m count
  Collective.log .debug s!"Aggregating {count} local samples, padded to {common}"
  let header ← Collective.gather m (word count :: roleWords o.role) 0
  let samples ← Collective.gather m (padded common o.latencies) 0
  let times ← Collective.gather m (padded slots o.times) 0
  let earliest ← Collective.reduceMin m (o.start.elim Collective.maxWord word) 0
  let latest ← Collective.reduceMax m (o.finish.elim 0 word) 0
  let invalid ← Collective.reduceSum m (word o.invalid) 0
  let missed ← Collective.reduceSum m (word o.missed) 0
  let failures ← Collective.reduceSum m (word o.failures) 0
  match header, samples, times with
  | some header, some samples, some times =>
    conclude m slots
      { common, header, samples, times, earliest, latest, invalid, missed, failures }
  | _, _, _ => return none

end Lagmeter.Collection
