import Lagmeter.Experiment.Site
import Lagmeter.Group.Mesh

/-!
# Scenes

What all ranks of a run share: the mesh between them, the clocks, the watchers, the store, the
files and the log. The store is open: whatever answers its calls can be put into a scene.
-/

namespace Lagmeter

/-! ## Stores -/

structure Effect (σ α : Type) where
  answer : α
  store : σ
  /-- The watchers that are told of a change, in their order. -/
  told : List Nat := []
  /-- How far the clocks move on. -/
  elapsed : Nat := 0
  /-- A new time of the wall clock. -/
  wall : Option Nat := none
  /-- Who is told once more after how long. -/
  later : List (Nat × List Nat) := []

/-- A store that answers the calls of all ranks. -/
class Backend (σ : Type) where
  serve : (rank now : Nat) → (call : StoreCall) → σ → Effect σ call.Answer
  openStructure : (rank : Nat) → (name : String) → σ → Except StoreError Unit × σ
  subscribe : (rank : Nat) → σ → Nat × σ

/-! ## Scenes -/

structure Scene (σ : Type) where
  mesh : Mesh
  /-- The clock of times that are written down. -/
  wall : Nat
  /-- The clock of rates. -/
  stopwatch : Nat := 0
  /-- One watcher for each rank. -/
  watchers : Array Watcher
  events : Array (Nat × Event) := #[]
  files : Files
  draws : Draws
  /-- The ranks whose setup is over, in the order in which it was. -/
  setups : Array Nat := #[]
  store : σ

/-- A change that watchers are told of at a moment. -/
structure Timer where
  due : Nat
  audience : List Nat

namespace Scene

variable {σ : Type}

/-- A scene for a group of a size in which nothing has happened. -/
def ofStore (size wall : Nat) (files : Files) (store : σ) : Scene σ :=
  { mesh := .ofSize size, wall, watchers := .replicate size {}, files, draws := .ofSeed 1, store }

def watcher (s : Scene σ) (rank : Nat) : Watcher := s.watchers.getD rank {}

def setWatcher (s : Scene σ) (rank : Nat) (w : Watcher) : Scene σ :=
  { s with watchers := s.watchers.setIfInBounds rank w }

def log (s : Scene σ) (rank : Nat) (events : List Event) : Scene σ :=
  { s with events := s.events ++ (events.map fun e => (rank, e)).toArray }

/-- Tells watchers of a change, one after the other. -/
def tell (s : Scene σ) (audience : List Nat) : Scene σ :=
  audience.foldl (fun s w => s.setWatcher w (s.watcher w).change) s

/-! ## Work -/

/-- What a call of a node leads to. -/
inductive Reply (σ : Type) (call : WorkCall) where
  | answered (answer : call.Answer) (scene : Scene σ) (raised : List Signal) (timers : List Timer)
  /-- The call is on its way and can go on. -/
  | further (scene : Scene σ)
  | halt (wait : Wait)

def elapse {α : Type} (s : Scene σ) (e : Effect σ α) : Scene σ :=
  { s with
    store := e.store
    wall := e.wall.getD s.wall + e.elapsed
    stopwatch := s.stopwatch + e.elapsed }

def serve [Backend σ] (s : Scene σ) (rank now : Nat) (call : StoreCall) : Reply σ (.store call) :=
  let e := Backend.serve rank now call s.store
  .answered e.answer ((s.elapse e).tell e.told) (e.told.map Signal.change)
    (e.later.map fun (delay, audience) => ⟨now + delay, audience⟩)

/-- A step of a wait for a change. -/
def await (s : Scene σ) (rank now : Nat) (timeout : Span) : Reply σ (.await timeout) :=
  let w := s.watcher rank
  match w.waiting with
  | none => .further (s.setWatcher rank { w with waiting := some (Watcher.begin now timeout.nanos) })
  | some waiting => match waiting.step now w.latch with
    | .further waiting latch events => .further ((s.setWatcher rank ⟨latch, some waiting⟩).log rank events)
    | .over outcome latch => .answered outcome (s.setWatcher rank ⟨latch, none⟩) [] []
    | .asleep => .halt { signals := [.change rank], deadline := waiting.deadline }

/-- What comes of a call to the clocks, the watcher or the log, or to the store. A call that takes
its time was asked first at the moment `asked`. -/
def work [Backend σ] (s : Scene σ) (rank now : Nat) (asked : Option Nat) :
    (call : WorkCall) → Reply σ call
  | .store call =>
    if call.isLong && asked.isNone then .halt { helper := true } else s.serve rank now call
  | .await timeout => s.await rank now timeout
  | .changes => .answered (s.watcher rank).latch.changes s [] []
  | .sleep time =>
    let deadline := asked.getD now + time.nanos
    if deadline ≤ now then .answered () s [] [] else .halt { deadline := some deadline }
  | .sleepUntil deadline =>
    if deadline ≤ now then .answered () s [] [] else .halt { deadline := some deadline }
  | .moment => .answered now s [] []
  | .wallClock => .answered s.wall s [] []
  | .stopwatch => .answered s.stopwatch s [] []
  | .log e => .answered () (s.log rank [e]) [] []

end Scene

end Lagmeter
