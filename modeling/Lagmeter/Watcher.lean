import Lagmeter.Log.Event

/-!
# Watchers

A watcher is told of changes, possibly by many at once, and one reader waits for them. A change
that comes while nobody waits stays pending, and changes that come before a wait count as one. A
change is told in two steps: it is recorded, and then the waiter is called. A wait registers for
calls before it looks for a pending change, so that a change between the two is not missed.
-/

namespace Lagmeter

inductive WaitOutcome where
  | updated
  | timedOut
  deriving DecidableEq, Repr

/-! ## The latch -/

/-- What has become of the registration of a wait. -/
inductive Registration where
  /-- Nobody is registered. -/
  | away
  /-- Registered, and not called yet. -/
  | registered
  /-- Called, which the waiter does not know yet. -/
  | called
  /-- Called by a permit that was there before. -/
  | served
  deriving DecidableEq, Repr

structure Latch where
  pending : Bool := false
  changes : Nat := 0
  /-- A call that found nobody registered. There is one at most. -/
  permit : Bool := false
  registration : Registration := .away
  deriving DecidableEq, Repr

namespace Latch

def record (l : Latch) : Latch := { l with pending := true, changes := l.changes + 1 }

def call (l : Latch) : Latch :=
  match l.registration with
  | .registered => { l with registration := .called }
  | _ => { l with permit := true }

def change (l : Latch) : Latch := l.record.call

/-- Registers the waiter. A permit serves it at once. -/
def register (l : Latch) : Latch :=
  if l.permit then { l with permit := false, registration := .served }
  else { l with registration := .registered }

def take (l : Latch) : Bool × Latch := (l.pending, { l with pending := false })

/-- Whether the waiter was called, which ends its registration. -/
def answered (l : Latch) : Bool × Latch :=
  match l.registration with
  | .called | .served => (true, { l with registration := .away })
  | _ => (false, l)

/-- Ends the registration. A call that the waiter does not know of is kept for the next one. -/
def leave (l : Latch) : Latch :=
  match l.registration with
  | .called => { l with registration := .away, permit := true }
  | _ => { l with registration := .away }

end Latch

/-! ## Waits -/

inductive WaitStage where
  /-- About to register. -/
  | registering
  /-- Registered, and about to look for a change. -/
  | checking
  /-- Asleep until it is called or the time is over. -/
  | parked
  /-- About to look for a change a last time. -/
  | expired
  deriving DecidableEq, Repr

/-- A wait on its way. Without a deadline it lasts until a change comes. -/
structure Waiting where
  stage : WaitStage := .registering
  deadline : Option Nat
  deriving DecidableEq, Repr

/-- What one step of a wait leads to. -/
inductive WaitStep where
  | further (waiting : Waiting) (latch : Latch) (events : List Event)
  | over (outcome : WaitOutcome) (latch : Latch)
  /-- Neither a call nor the deadline has come. -/
  | asleep
  deriving DecidableEq

namespace Waiting

/-- Told each time a call ends the sleep. -/
def awake : Event := ⟨.trace, "watcher woke up, rechecking pending flag"⟩

def step (w : Waiting) (now : Nat) (l : Latch) : WaitStep :=
  match w.stage with
  | .registering => .further { w with stage := .checking } l.register []
  | .checking => match l.take with
    | (true, l) => .over .updated l.leave
    | (false, l) => .further { w with stage := .parked } l []
  | .parked => match l.answered with
    | (true, l) => .further { w with stage := .registering } l [awake]
    | (false, l) =>
      if w.deadline.any (· ≤ now) then .further { w with stage := .expired } l [] else .asleep
  | .expired => match l.take with
    | (true, l) => .over .updated l.leave
    | (false, l) => .over .timedOut l.leave

end Waiting

/-- A latch and the wait for it, if there is one. -/
structure Watcher where
  latch : Latch := {}
  waiting : Option Waiting := none
  deriving DecidableEq

namespace Watcher

def change (w : Watcher) : Watcher := { w with latch := w.latch.change }

/-- A wait that starts now. No time at all means to wait without end. -/
def begin (now timeout : Nat) : Waiting :=
  { deadline := if timeout = 0 then none else some (now + timeout) }

end Watcher

end Lagmeter
