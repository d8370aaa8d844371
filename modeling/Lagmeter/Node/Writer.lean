import Lagmeter.Node.Outcome
import Lagmeter.Node.Work
import Lagmeter.Number.Layout
import Lagmeter.Settings
import Lagmeter.Stats.Throughput

/-!
# Writers

A writer fills its structure with background entries, warms it up, and then publishes the measured
versions in bursts. Between bursts it sleeps until a moment that does not depend on how long the
burst took. A write that the store refuses is tried again with a new time.
-/

namespace Lagmeter

structure Writer where
  map : Nat
  /-- The name of the structure. -/
  name : String
  keys : List Int
  settings : WriterSettings
  populated : Nat := 0
  /-- When each measured version was written, or zero. -/
  times : List Nat
  warmup : Window := {}
  measure : Window := {}
  skippedSleeps : Nat := 0
  failedWrites : Nat := 0
  throughput : Option Throughput := none
  deriving Inhabited

namespace Writer

def new (map : Nat) (name : String) (keys : List Int) (settings : WriterSettings) : Writer :=
  { map, name, keys, settings, times := List.replicate settings.writes 0 }

def role (w : Writer) : Role := .writer w.map

def outcome (w : Writer) : Outcome :=
  { role := w.role, times := w.times, start := w.measure.start, finish := w.measure.finish
    failures := w.failedWrites }

/-! ## One version -/

def failed (w : Writer) : Writer := { w with failedWrites := w.failedWrites + 1 }

def gaveUp (version failures : Nat) (e : StoreError) : Fault :=
  ⟨[s!"Giving up on version {version} after {failures} consecutive failures", e.message]⟩

/-- Publishes a version, and tries again at most `left` times. The answer is the time that was
written. -/
def publish (version : Nat) : (left : Nat) → Writer → Dialogue Work (Writer × Except Fault Nat)
  | left, w => do
    let now ← Work.wallClock
    match ← Work.publish ⟨version, now⟩ with
    | .ok () => return (w, .ok now)
    | .error e =>
      let w := w.failed
      match left with
      | 0 => return (w, .error (gaveUp version patience e))
      | left + 1 =>
        Work.log .warn s!"Write of version {version} failed ({e.message}), retrying"
        Work.sleep (backoff (patience - 1 - left))
        publish version left w

/-! ## Bursts -/

/-- The moment at which the burst began, and the versions written in it. -/
structure Burst where
  anchor : Nat
  written : Nat := 0

/-- Ends a burst: sleeps until the next one is due, which starts at once if it is late. -/
def rest (w : Writer) (anchor : Nat) : Dialogue Work (Writer × Burst) := do
  let next := anchor + w.settings.interval.nanos
  let now ← Work.moment
  if now < next then
    Work.sleepUntil next
    return (w, ⟨next, 0⟩)
  else return ({ w with skippedSleeps := w.skippedSleeps + 1 }, ⟨now, 0⟩)

/-- Goes on after a version. A burst ends when it is full, unless nothing comes after it. -/
def pace (w : Writer) (perInterval remaining : Nat) (b : Burst) : Dialogue Work (Writer × Burst) :=
  if b.written + 1 < perInterval ∨ remaining = 0 then return (w, ⟨b.anchor, b.written + 1⟩)
  else w.rest b.anchor

def record (w : Writer) (version time : Nat) : Writer :=
  { w with times := w.times.set (version - w.settings.warmup - 1) time }

def publishAll (measured : Bool) (perInterval : Nat) :
    (remaining version : Nat) → Burst → Writer → Dialogue Work (Writer × Except Fault Unit)
  | 0, _, _, w => return (w, .ok ())
  | remaining + 1, version, b, w => do
    match ← w.publish version (patience - 1) with
    | (w, .error e) => return (w, .error e)
    | (w, .ok time) =>
      let w := if measured then w.record version time else w
      let (w, b) ← w.pace perInterval remaining b
      publishAll measured perInterval remaining (version + 1) b w

def noWrites (s : WriterSettings) : Fault :=
  .ofReason s!"write rate {Layout.plain.write s.rate} over interval {s.interval.rough} rounds to zero writes"

/-- Publishes `count` versions from `version` on. The answer is the rate. -/
def writeVersions (w : Writer) (measured : Bool) (count version : Nat) :
    Dialogue Work (Writer × Except Fault Throughput) := do
  let perInterval := w.settings.perInterval
  if perInterval = 0 then return (w, .error (noWrites w.settings))
  else
    let start ← Work.stopwatch
    let anchor ← Work.moment
    match ← publishAll measured perInterval count version ⟨anchor, 0⟩ w with
    | (w, .error e) => return (w, .error e)
    | (w, .ok ()) =>
      let finish ← Work.stopwatch
      return (w, .ok (.ofCount count ⟨finish - start⟩))

/-! ## Phases -/

/-- Fills the structure with background entries and churns them. -/
def prepare (w : Writer) : Dialogue Work (Writer × Except Fault Unit) := do
  match ← Work.populate w.keys with
  | .error e => return (w, .error ⟨[s!"Failed to populate {w.name}", e.message]⟩)
  | .ok populated =>
    let w := { w with populated }
    Work.log .debug s!"Populated {w.name} with {populated} entries"
    match ← Work.churn w.settings.warmup with
    | .error e => return (w, .error ⟨[s!"Failed to churn {w.name}", e.message]⟩)
    | .ok churned =>
      if 0 < churned then Work.log .debug s!"Applied {churned} churn operations to {w.name}"
      return (w, .ok ())

def warmUp (w : Writer) : Dialogue Work (Writer × Except Fault Unit) := do
  let w := { w with warmup := { w.warmup with start := some (← Work.wallClock) } }
  let (w, result) ←
    if w.settings.warmup = 0 then pure (w, .ok ())
    else do
      let (w, result) ← w.writeVersions false w.settings.warmup 1
      pure (w, result.map fun _ => ())
  match result with
  | .error e => return (w, .error (e.within "Warmup writes failed"))
  | .ok () =>
    return ({ w with warmup := { w.warmup with finish := some (← Work.wallClock) } }, .ok ())

def setup (w : Writer) : Dialogue Work (Writer × Except Fault Unit) := do
  match ← w.prepare with
  | (w, .error e) => return (w, .error e)
  | (w, .ok ()) => w.warmUp

def run (w : Writer) : Dialogue Work (Writer × Except Fault Unit) := do
  let w := { w with measure := { w.measure with start := some (← Work.wallClock) } }
  let (w, result) ← w.writeVersions true w.settings.writes (w.settings.warmup + 1)
  let w := { w with measure := { w.measure with finish := some (← Work.wallClock) } }
  match result with
  | .error e => return (w, .error e)
  | .ok t =>
    Work.log .info
      s!"Wrote {t.operations} versions to {w.name} at {roughRate t.perSecond} ({w.skippedSleeps} skipped sleeps)"
    return ({ w with throughput := some t }, .ok ())

def shutdown (w : Writer) : Dialogue Work (Writer × Except Fault Unit) := do
  let entries ← Work.entries
  Work.log .debug s!"Writer for {w.name} done, {entries} entries in store"
  return (w, .ok ())

/-! ## Report -/

def summaryPage (w : Writer) : Journal.Page :=
  { name := "write-summary"
    lines := [
      s!"writes {w.throughput.elim 0 Throughput.operations}",
      s!"skippedsleep {w.skippedSleeps}",
      s!"avgwriterate {fixed 3 (w.throughput.elim .zero Throughput.perSecond)}",
      s!"failedwrites {w.failedWrites}"] }

def pages (w : Writer) : List Journal.Page := [Window.page w.warmup w.measure, w.summaryPage]

end Writer

end Lagmeter
