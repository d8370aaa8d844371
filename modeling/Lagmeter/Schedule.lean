/-!
# Schedules

Tasks take turns. A task keeps its turn until it has to wait. Tasks that become ready go on in the
order in which they became ready. The clock stands still as long as a task can go on, and then
jumps to the next moment that a task waits for. It moves in whole milliseconds.
-/

namespace Lagmeter

inductive Signal where
  /-- A frame for a rank from a peer, or the peer's end. -/
  | arrival (rank peer : Nat)
  /-- A change that a watcher was told of. -/
  | change (watcher : Nat)
  deriving DecidableEq, Repr

/-- Until when a task waits: one of some signals, or a moment in nanoseconds, whichever comes
first. A task whose work is done by a `helper` goes on as soon as nobody else can. -/
structure Wait where
  signals : List Signal := []
  deadline : Option Nat := none
  helper : Bool := false
  deriving Repr

inductive Turn (Task World : Type) where
  /-- One action, after which the task may go on. It may raise signals and start other tasks. -/
  | act (task : Task) (world : World) (raised : List Signal) (started : List Task)
  /-- The task cannot go on yet. -/
  | halt (task : Task) (world : World) (wait : Wait)
  /-- The task has ended. -/
  | finish

/-- Tasks in a world: what each of them does next, given its number and the time. -/
structure System (Task World : Type) where
  turn : Nat → Nat → Task → World → Turn Task World

structure Schedule (Task World : Type) where
  now : Nat := 0
  tasks : Array Task
  /-- Tasks that can go on, the next one first. -/
  ready : List Nat
  /-- Tasks that wait, in the order in which they began to. -/
  asleep : List (Nat × Wait) := []
  world : World

namespace Schedule

variable {Task World : Type}

def start (tasks : List Task) (world : World) : Schedule Task World :=
  { tasks := tasks.toArray, ready := List.range tasks.length, world }

/-! ## Waking -/

/-- Moves the sleepers that satisfy a condition to the end of the ready ones. -/
def wake (s : Schedule Task World) (wakes : Wait → Bool) : Schedule Task World :=
  let (woken, asleep) := s.asleep.partition fun (_, w) => wakes w
  { s with ready := s.ready ++ woken.map Prod.fst, asleep }

def raise (s : Schedule Task World) (signal : Signal) : Schedule Task World :=
  s.wake fun w => w.signals.contains signal

def startAll (s : Schedule Task World) (tasks : List Task) : Schedule Task World :=
  { s with
    tasks := s.tasks ++ tasks.toArray
    ready := s.ready ++ List.range' s.tasks.size tasks.length }

/-! ## Time -/

/-- The first whole millisecond that is not before a moment. -/
def wholeMillis (nanos : Nat) : Nat := (nanos + 999999) / 1000000 * 1000000

def nextDeadline (s : Schedule Task World) : Option Nat :=
  (s.asleep.filterMap fun (_, w) => w.deadline.map wholeMillis).min?

/-- Whether the wait of a task ends at a moment. -/
def due (now : Nat) (w : Wait) : Bool :=
  match w.deadline with
  | none => false
  | some deadline => wholeMillis deadline ≤ now

/-- What happens when no task can go on: helpers end, or the clock jumps. -/
def idle (s : Schedule Task World) : Option (Schedule Task World) :=
  if s.asleep.any fun (_, w) => w.helper then some (s.wake Wait.helper)
  else match s.nextDeadline with
    | none => none
    | some now => some ({ s with now }.wake (due now))

/-! ## Running -/

/-- One action, or nothing if nothing will ever happen again. -/
def step (sys : System Task World) (s : Schedule Task World) : Option (Schedule Task World) :=
  match s.ready with
  | [] => s.idle
  | t :: rest =>
    match s.tasks[t]? with
    | none => some { s with ready := rest }
    | some task =>
      match sys.turn t s.now task s.world with
      | .act task world raised started =>
        let s := { s with tasks := s.tasks.setIfInBounds t task, world }
        some ((raised.foldl raise s).startAll started)
      | .halt task world wait =>
        some { s with
          tasks := s.tasks.setIfInBounds t task, world, ready := rest
          asleep := s.asleep ++ [(t, wait)] }
      | .finish => some { s with ready := rest }

def run (sys : System Task World) : Nat → Schedule Task World → Schedule Task World
  | 0, s => s
  | fuel + 1, s => match s.step sys with
    | none => s
    | some s => run sys fuel s

/-- At most `fuel` actions, until the schedule is as wanted. -/
def runUntil (sys : System Task World) (wanted : Schedule Task World → Bool) :
    Nat → Schedule Task World → Schedule Task World
  | 0, s => s
  | fuel + 1, s =>
    if wanted s then s
    else match s.step sys with
      | none => s
      | some s => runUntil sys wanted fuel s

end Schedule

end Lagmeter
