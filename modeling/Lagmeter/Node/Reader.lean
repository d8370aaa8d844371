import Lagmeter.Node.Outcome
import Lagmeter.Node.Work
import Lagmeter.Settings
import Lagmeter.Stats.Histogram
import Lagmeter.Stats.Samples

/-!
# Readers

A reader waits for changes of its structure and looks at the sample that it carries then. It takes
one latency of each measured version that it sees, the first time that it sees it. A silence longer
than its timeout means that the writer has finished.
-/

namespace Lagmeter

structure Reader where
  map : Nat
  /-- The name of the structure. -/
  name : String
  settings : ReaderSettings
  /-- The subscription, as long as there is one. -/
  listener : Option Nat
  lastVersion : Nat := 0
  /-- Latencies in the order of their observation. -/
  latencies : List Nat := []
  /-- When each measured version was seen first, or zero. -/
  times : List Nat
  repeats : Nat := 0
  missed : Nat := 0
  invalid : Nat := 0
  failedReads : Nat := 0
  timedOut : Bool := false
  warmup : Window := {}
  measure : Window := {}
  deriving Inhabited

namespace Reader

def new (map : Nat) (name : String) (settings : ReaderSettings) (listener : Nat) : Reader :=
  { map, name, settings, listener := some listener, times := List.replicate settings.writes 0 }

def role (r : Reader) : Role := .reader r.map

def outcome (r : Reader) : Outcome :=
  { role := r.role, latencies := r.latencies, times := r.times, start := r.measure.start
    finish := r.measure.finish, invalid := r.invalid, missed := r.missed, failures := r.failedReads }

/-! ## Looking -/

def gaveUp (failures : Nat) (e : StoreError) : Fault :=
  ⟨[s!"Giving up after {failures} consecutive read failures", e.message]⟩

/-- Looks at the structure, and tries again at most `left` times. -/
def look : (left : Nat) → Reader → Dialogue Work (Reader × Except Fault (Option Sample))
  | left, r => do
    match ← Work.observe with
    | .ok sample => return (r, .ok sample)
    | .error e =>
      let r := { r with failedReads := r.failedReads + 1 }
      match left with
      | 0 => return (r, .error (gaveUp patience e))
      | left + 1 =>
        Work.log .warn s!"Read of {r.name} failed ({e.message}), retrying"
        Work.sleep (backoff (patience - 1 - left))
        look left r

/-! ## Accounts -/

/-- The version that a new one should be. -/
def expected (r : Reader) : Nat := max r.lastVersion r.settings.warmup + 1

/-- A measured version that is new: the ones before it that were not seen are missed. -/
def advance (r : Reader) (version : Nat) : Reader :=
  { r with missed := r.missed + (version - r.expected), lastVersion := version }

def take (r : Reader) (p : Sample) (seen : Nat) : Reader :=
  { r with
    latencies := r.latencies ++ [seen - p.writtenAt]
    times := r.times.set (p.version - r.settings.warmup - 1) seen }

/-- Whether everything has been seen after a version. -/
def complete (r : Reader) (version : Nat) : Bool :=
  r.settings.warmup + r.settings.writes ≤ version || r.settings.writes ≤ r.latencies.length

/-- What an observation adds to the accounts: the reader afterwards, what it tells, and whether it
is finished. -/
def account (r : Reader) (p : Sample) (seen : Nat) : Reader × List Event × Bool :=
  if p.version ≤ r.lastVersion then
    ({ r with repeats := r.repeats + 1 },
      [⟨.debug, s!"Repeated observation of version {p.version}"⟩],
      r.settings.endOnRepeat && decide (r.settings.warmup < r.lastVersion))
  else if p.version ≤ r.settings.warmup then ({ r with lastVersion := p.version }, [], false)
  else
    let r := r.advance p.version
    if seen < p.writtenAt then
      let r := { r with invalid := r.invalid + 1 }
      (r, [⟨.warn, s!"Version {p.version} observed {p.writtenAt - seen}ns before it was written, discarding"⟩],
        r.complete p.version)
    else
      let r := r.take p seen
      (r, [], r.complete p.version)

def tell : List Event → Dialogue Work Unit
  | [] => return ()
  | e :: rest => do
    Work.log e.level e.text
    tell rest

/-! ## Setup -/

def endSetup (r : Reader) : Dialogue Work (Round Reader) := do
  let r := { r with warmup := { r.warmup with finish := some (← Work.wallClock) } }
  Work.log .debug s!"Reader drained warmup up to version {r.lastVersion}"
  return .over r (.ok ())

/-- The reader after a look at the structure during setup. -/
def drained (r : Reader) (sample : Option Sample) : Reader :=
  { r with lastVersion := max r.lastVersion (sample.elim 0 Sample.version) }

/-- Looks at the structure during setup, which is over when the last version that is not measured
was seen. -/
def drain (r : Reader) : Dialogue Work (Round Reader) := do
  if r.settings.warmup ≤ r.lastVersion then r.endSetup
  else match ← r.look (patience - 1) with
    | (r, .error e) => return .over r (.error e)
    | (r, .ok sample) =>
      let r := r.drained sample
      if r.settings.warmup ≤ r.lastVersion then r.endSetup else return .again r

/-- The first round of setup looks at once. -/
def openSetup (r : Reader) : Dialogue Work (Round Reader) := do
  drain { r with warmup := { r.warmup with start := some (← Work.wallClock) } }

/-- Each further round waits for a change first. -/
def setupRound (r : Reader) : Dialogue Work (Round Reader) := do
  match ← Work.await r.settings.timeout with
  | .updated => r.drain
  | .timedOut =>
    Work.log .warn
      s!"Warmup drain of {r.name} timed out at version {r.lastVersion} of {r.settings.warmup}"
    r.endSetup

/-! ## Run -/

def openRun (r : Reader) : Dialogue Work (Round Reader) := do
  return .again { r with measure := { r.measure with start := some (← Work.wallClock) } }

def endRun (r : Reader) (result : Except Fault Unit) : Dialogue Work (Round Reader) := do
  let r := { r with measure := { r.measure with finish := some (← Work.wallClock) } }
  Work.log .info
    s!"Recorded {r.latencies.length} samples from {r.name} ({r.missed} missed, {r.repeats} repeated, {r.invalid} invalid)"
  return .over r result

def watch (r : Reader) : Dialogue Work (Round Reader) := do
  match ← r.look (patience - 1) with
  | (r, .error e) => r.endRun (.error e)
  | (r, .ok none) => return .again r
  | (r, .ok (some p)) =>
    let (r, events, finished) := r.account p (← Work.wallClock)
    tell events
    if finished then r.endRun (.ok ()) else return .again r

/-- One round of the run, which goes on until every sample was taken or nothing happens. -/
def runRound (r : Reader) : Dialogue Work (Round Reader) := do
  if r.settings.writes ≤ r.latencies.length then r.endRun (.ok ())
  else match ← Work.await r.settings.timeout with
    | .updated => r.watch
    | .timedOut =>
      Work.log .warn
        s!"No update on {r.name} for {r.settings.timeout.rough}, assuming the writer finished"
      { r with timedOut := true }.endRun (.ok ())

/-! ## Shutdown -/

def shutdown (r : Reader) : Dialogue Work (Round Reader) := do
  match r.listener with
  | none => return .over r (.ok ())
  | some listener =>
    if !(← Work.unsubscribe listener) then
      Work.log .warn s!"Listener {listener} was not registered on {r.name}"
    return .over { r with listener := none } (.ok ())

/-! ## Report -/

def percents : List Double := [.ofNat 50, .ofNat 90, .ofNat 95, .ofNat 99, .ofDecimal 9999 (-2)]

/-- Lines about the samples, if there are any. -/
def sampleLines (r : Reader) : List String :=
  match Samples.ofList r.latencies with
  | .error _ => ["no samples recorded"]
  | .ok s => [
      s!"mean {Span.roughNanos s.mean}",
      s!"stdev {Span.roughNanos s.deviation}",
      s!"p90 {s.percentileOrMax 0.90}",
      s!"p95 {s.percentileOrMax 0.95}",
      s!"p99 {s.percentileOrMax 0.99}",
      s!"p99.99 {s.percentileOrMax 0.9999}"]

/-- Lines from a histogram of the samples, if there are any. -/
def histogramLines (r : Reader) : List String :=
  let h := Histogram.ofSamples r.latencies
  if h.isEmpty then []
  else
    let s := h.summary percents
    s!"hdr min {s.min} max {s.max} mean {fixed 1 s.mean} stdev {fixed 1 s.deviation}" ::
      s.percentiles.map fun v => s!"hdr p{Layout.plain.write v.percent} {v.value}"

def summaryPage (r : Reader) (changes : Nat) : Journal.Page :=
  { name := "summary"
    lines := s!"samples {r.latencies.length}" :: r.sampleLines ++ [
      s!"missed {r.missed}", s!"repeated {r.repeats}", s!"invalid {r.invalid}",
      s!"readfailures {r.failedReads}", s!"changes {changes}"] ++ r.histogramLines }

def pages (r : Reader) (changes : Nat) : List Journal.Page := [
  Window.page r.warmup r.measure,
  { name := "raw-latency-data", lines := r.latencies.map toString, headed := false },
  r.summaryPage changes]

end Reader

end Lagmeter
