import Lagmeter.Store.Contents
import Lagmeter.Time.Span

/-!
# Replicas

Changes of a replicated structure are queued in the order of their submission. Each is applied when
its delay is over, one after the other, and then every listener is told. What can be read is what
was applied.
-/

namespace Lagmeter

/-- A change on its way, and the moment from which it may be applied. -/
structure Submitted (s : Structure) where
  change : s.Change
  due : Nat

/-- A replicated structure as one place sees it. -/
structure Replica (s : Structure) where
  contents : s.Contents := s.vacant
  queue : List (Submitted s) := []
  /-- Who is told of changes, by the number of the listener. -/
  listeners : List (Nat × Nat) := []
  /-- Listener numbers given out. -/
  issued : Nat := 0

namespace Replica

variable {s : Structure}

def size (r : Replica s) : Nat := s.count r.contents

/-! ## Changes -/

def submit (r : Replica s) (now : Nat) (delay : Span) (change : s.Change) : Replica s :=
  { r with queue := r.queue ++ [⟨change, now + delay.nanos⟩] }

def audience (r : Replica s) : List Nat := r.listeners.map Prod.snd

/-- Applies a change. The second part is who has to be told. -/
def apply (r : Replica s) (change : s.Change) : Replica s × List Nat :=
  let (contents, changed) := s.applied r.contents change
  ({ r with contents }, if changed then r.audience else [])

/-- Applies the oldest queued change if its time has come. -/
def advance? (r : Replica s) (now : Nat) : Option (Replica s × List Nat) :=
  match r.queue with
  | [] => none
  | c :: rest => if c.due ≤ now then some ({ r with queue := rest }.apply c.change) else none

def applyAll (r : Replica s) : List s.Change → Replica s × List Nat
  | [] => (r, [])
  | c :: rest =>
    let (r, told) := r.apply c
    let (r, more) := r.applyAll rest
    (r, told ++ more)

/-- Waits until everything that was submitted is applied. -/
def flush (r : Replica s) : Replica s × List Nat :=
  { r with queue := [] }.applyAll (r.queue.map Submitted.change)

/-! ## Listeners -/

/-- Adds a listener, which gets the next number. -/
def listen (r : Replica s) (who : Nat) : Nat × Replica s :=
  let number := r.issued + 1
  (number, { r with listeners := r.listeners ++ [(number, who)], issued := number })

/-- Removes a listener. False means that there was none of this number. -/
def unlisten (r : Replica s) (number : Nat) : Bool × Replica s :=
  let listeners := r.listeners.filter (·.1 ≠ number)
  (decide (listeners.length ≠ r.listeners.length), { r with listeners })

end Replica

end Lagmeter
