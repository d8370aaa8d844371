import Lagmeter.Scene.Ranks

/-!
# Scripted stores

A scripted store answers as it is told, whatever it was called for before. A node on its own can be
tried with it.
-/

namespace Lagmeter

/-- What a scripted store does when it is looked at. -/
structure Observation where
  /-- The time of the wall clock from then on. -/
  wall : Option Nat := none
  /-- How often every listener is told of a change. -/
  notify : Nat := 1
  /-- After how long every listener is told once more. -/
  later : Option Span := none
  result : Except StoreError (Option Sample)

/-- What a scripted store does with a write. -/
structure Attempt where
  error : Option StoreError
  /-- How far the clocks move on. -/
  elapsed : Nat

structure Script where
  observations : List Observation := []
  attempts : List Attempt := []
  /-- How far the clocks move on with a write that the script does not speak of. -/
  tick : Nat := 0
  populateError : Option StoreError := none
  churnError : Option StoreError := none
  churned : Nat := 0
  entries : Nat := 0
  /-- The number that a subscription gets. -/
  listener : Nat := 1
  /-- Whether the end of a subscription is denied. -/
  forgetful : Bool := false

/-- A write that a scripted store was asked for, when, and whether it took place. -/
structure Publication where
  sample : Sample
  moment : Nat
  succeeded : Bool

/-- A scripted store, and what it was asked for. -/
structure ScriptedStore where
  script : Script
  observed : Nat := 0
  published : Array Publication := #[]
  populated : List Int := []
  churned : Option Nat := none
  listeners : List (Nat × Nat) := []

namespace ScriptedStore

/-- After the script nothing is seen, and nobody is told. -/
def silence : Observation := { notify := 0, result := .ok none }

def audience (s : ScriptedStore) (n : Nat) : List Nat :=
  (List.replicate n (s.listeners.map Prod.snd)).flatten

def observe (s : ScriptedStore) : Effect ScriptedStore (Except StoreError (Option Sample)) :=
  let o := s.script.observations.getD s.observed silence
  { answer := o.result
    store := { s with observed := s.observed + 1 }
    told := s.audience o.notify
    wall := o.wall
    later := o.later.toList.map fun delay => (delay.nanos, s.audience 1) }

def publish (s : ScriptedStore) (now : Nat) (p : Sample) :
    Effect ScriptedStore (Except StoreError Unit) :=
  let a := s.script.attempts.getD s.published.size ⟨none, s.script.tick⟩
  { answer := a.error.elim (.ok ()) .error
    store := { s with published := s.published.push ⟨p, now, a.error.isNone⟩ }
    elapsed := a.elapsed }

def serve (s : ScriptedStore) (now : Nat) : (call : StoreCall) → Effect ScriptedStore call.Answer
  | .populate keys => match s.script.populateError with
    | some e => { answer := .error e, store := s }
    | none => { answer := .ok (Channel.populated keys), store := { s with populated := keys } }
  | .churn operations => match s.script.churnError with
    | some e => { answer := .error e, store := s }
    | none => { answer := .ok s.script.churned, store := { s with churned := some operations } }
  | .publish p => s.publish now p
  | .observe => s.observe
  | .unsubscribe number =>
    { answer := !s.script.forgetful && s.listeners.any (·.1 = number)
      store := { s with listeners := s.listeners.filter (·.1 ≠ number) } }
  | .entries => { answer := s.script.entries, store := s }

instance : Backend ScriptedStore where
  serve _ now call s := s.serve now call
  openStructure _ _ s := (.ok (), s)
  subscribe rank s :=
    (s.script.listener, { s with listeners := s.listeners ++ [(s.script.listener, rank)] })

end ScriptedStore

/-! ## Trials of one node -/

/-- A node on its own with a scripted store. It goes on step by step, and timers run beside it. -/
structure Bench where
  now : Nat := 0
  node : Node := .idle
  scene : Scene ScriptedStore
  /-- Timers that wait, in the order in which they began to. -/
  waiting : List Timer := []
  /-- Timers that have not begun to. -/
  fresh : List Timer := []

namespace Bench

def ofScript (wall : Nat) (files : Files) (script : Script) : Bench :=
  { scene := .ofStore 1 wall files { script } }

def change (b : Bench) (times : Nat) : Bench :=
  { b with scene := b.scene.tell (List.replicate times 0) }

def notify (b : Bench) (times : Nat) : Bench :=
  { b with scene := b.scene.tell (b.scene.store.audience times) }

/-- The watcher will be told of a change. -/
def changeLater (b : Bench) (delay : Span) : Bench :=
  { b with fresh := b.fresh ++ [⟨b.now + delay.nanos, [0]⟩] }

/-- The node and the timers, at the start of a program. -/
def schedule {α : Type} (b : Bench) (program : Dialogue Site α) :
    Schedule (Task α) (Scene ScriptedStore) :=
  let n := b.waiting.length
  { now := b.now
    tasks := (.rank (.talking b.node program none) :: (b.waiting ++ b.fresh).map .timer).toArray
    ready := 0 :: List.range' (n + 1) b.fresh.length
    asleep := (b.waiting.zipIdx 1).map fun (t, i) => (i, { deadline := some t.due })
    world := b.scene }

def timers {α : Type} (tasks : Array (Task α)) (numbers : List Nat) : List Timer :=
  numbers.filterMap fun i => match (tasks[i]? : Option (Task α)) with
    | some (.timer t) => if t.audience = [] then none else some t
    | _ => none

/-- The time after which a program is given up that is not over. -/
def forever : Span := .ofSeconds 10000000

/-- The bench when a program is given up: its wait is over. -/
def giveUp {α : Type} (limit : Nat) (s : Schedule (Task α) (Scene ScriptedStore)) (t : RankTask α) :
    Bench :=
  let w := s.world.watcher 0
  { now := limit, node := t.node, scene := s.world.setWatcher 0 { latch := w.latch.leave }
    waiting := timers s.tasks (s.asleep.map Prod.fst), fresh := timers s.tasks s.ready }

/-- Runs a program until it is over. No result means that it was given up. -/
def perform {α : Type} (b : Bench) (fuel : Nat) (program : Dialogue Site α) : Option α × Bench :=
  let limit := b.now + forever.nanos
  let s := (b.schedule program).runUntil Task.system
    (fun s => ((s.tasks[0]?).bind Task.result?).isSome || decide (limit < s.now)) fuel
  match (s.tasks[0]? : Option (Task α)) with
  | some (.rank t) => match t.result? with
    | some a =>
      (some a,
        { now := s.now, node := t.node, scene := s.world
          waiting := timers s.tasks (s.asleep.map Prod.fst), fresh := timers s.tasks s.ready })
    | none => (none, giveUp limit s t)
  | _ => (none, b)

/-- Drops the node: it gives up a subscription that it still has. -/
def drop (b : Bench) : Bench :=
  match b.node.listener? with
  | none => b
  | some listener =>
    let e := b.scene.store.serve b.now (.unsubscribe listener)
    { b with node := .idle, scene := { b.scene with store := e.store } }

end Bench

end Lagmeter
