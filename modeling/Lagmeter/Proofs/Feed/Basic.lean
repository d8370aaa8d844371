import Lagmeter.Node.Basic
import Lagmeter.Proofs.Feed.Contents
import Lagmeter.Store.Replica
import Mathlib.Logic.Function.Basic
import Mathlib.Logic.Relation

/-!
# Feeds

A feed is a replicated structure with its dispatcher and the readers that are subscribed to it.
Everything that goes on there is cut into small moves, which come in any order: a change is queued,
the dispatcher applies it, records it with a watcher and calls the waiter, a reader waits, is told
and looks. What a clock or a timeout shows is part of the move, so that any timing is a run.
-/

namespace Lagmeter

/-! ## Runs -/

namespace Moves

variable {σ μ : Type} (act : σ → μ → Option σ) (allowed : σ → μ → Prop)

/-- States that moves of a kind lead to. -/
def Lead : σ → σ → Prop := Relation.ReflTransGen fun x y => ∃ m, allowed x m ∧ act x m = some y

/-- The state after some moves, unless one of them is not allowed or cannot be made. -/
def play? [∀ x m, Decidable (allowed x m)] (x : σ) : List μ → Option σ
  | [] => some x
  | m :: rest => if allowed x m then
      match act x m with
      | some y => play? y rest
      | none => none
    else none

variable {act allowed} in
theorem lead_of_play [∀ x m, Decidable (allowed x m)] {x y : σ} {moves : List μ}
    (h : play? act allowed x moves = some y) : Lead act allowed x y := by
  induction moves generalizing x with
  | nil => exact Option.some.inj h ▸ .refl
  | cons m rest ih =>
    rw [play?] at h
    split at h
    case isFalse => cases h
    case isTrue hallowed =>
      split at h
      case h_1 z hact => exact .head ⟨m, hallowed, hact⟩ (ih h)
      case h_2 => cases h

end Moves

/-! ## Desks -/

/-- How far a reader is with its phases. -/
inductive Desk.Stage where
  | absent
  | subscribed
  | setup
  | settled
  | run
  | finished
  deriving DecidableEq, Repr

structure Desk where
  stage : Desk.Stage := .absent
  /-- The reader as it was before this round. -/
  reader : Reader := default
  /-- What is left of the round, as long as the reader is in a phase. -/
  round : Dialogue Work (Round Reader) := .done (.again default)
  /-- The newest version that the reader knows of, what it observed in this round included. -/
  seen : Nat := 0
  watcher : Watcher := {}

namespace Desk

inductive Move where
  | start
  | next
  | wait (now : Nat)
  | observe
  | refuse (e : StoreError)
  /-- Any other call. Clocks that nothing else shows show the given number. -/
  | work (clock : Nat)

/-- The answer to a call that concerns neither the store nor the watcher. -/
def answer? (wall changes clock : Nat) : (call : WorkCall) → Option call.Answer
  | .wallClock => some wall
  | .changes => some changes
  | .moment | .stopwatch => some clock
  | .sleep _ | .sleepUntil _ | .log _ => some ()
  | .store _ | .await _ => none

/-- The first round of a phase, and each further one. -/
def opening (k : Desk) : Option Desk :=
  match k.stage with
  | .subscribed => some { k with stage := .setup, round := k.reader.openSetup }
  | .settled => some { k with stage := .run, round := k.reader.openRun }
  | _ => none

def another (k : Desk) : Option Desk :=
  match k.stage, k.round with
  | .setup, .done (.again r) => some { k with reader := r, round := r.setupRound }
  | .setup, .done (.over r _) => some { k with reader := r, stage := .settled }
  | .run, .done (.again r) => some { k with reader := r, round := r.runRound }
  | .run, .done (.over r _) => some { k with reader := r, stage := .finished }
  | _, _ => none

/-- A step of the wait of a reader. -/
def await (k : Desk) (timeout : Span) (go : WaitOutcome → Dialogue Work (Round Reader)) (now : Nat) :
    Option Desk :=
  match k.watcher.waiting with
  | none =>
    some { k with watcher := { k.watcher with waiting := some (Watcher.begin now timeout.nanos) } }
  | some w => match w.step now k.watcher.latch with
    | .further w latch _ => some { k with watcher := ⟨latch, some w⟩ }
    | .over outcome latch => some { k with watcher := ⟨latch, none⟩, round := go outcome }
    | .asleep => none

/-- The next call of the round, and what comes of its answer. -/
def perform (wall : Nat) (latest : Option Sample) (k : Desk) (m : Move) :
    (call : WorkCall) → (call.Answer → Dialogue Work (Round Reader)) → Option Desk
  | .store .observe, go => match m with
    | .observe => some { k with
        round := go (.ok latest), seen := max k.seen (latest.elim 0 Sample.version) }
    | .refuse e => some { k with round := go (.error e) }
    | _ => none
  | .await timeout, go => match m with
    | .wait now => k.await timeout go now
    | _ => none
  | call, go => match m with
    | .work clock => (answer? wall k.watcher.latch.changes clock call).map fun a =>
        { k with round := go a }
    | _ => none

def Busy (k : Desk) : Prop := k.stage = .setup ∨ k.stage = .run

instance (k : Desk) : Decidable k.Busy := inferInstanceAs (Decidable (_ ∨ _))

/-- The desk after a move of its reader. The wall clock and what can be read are the feed's. -/
def act (wall : Nat) (latest : Option Sample) (k : Desk) (m : Move) : Option Desk :=
  match m with
  | .start => k.opening
  | .next => k.another
  | m => if k.Busy then
      match k.round with
      | .done _ => none
      | .ask call go => k.perform wall latest m call go
    else none

end Desk

/-- The rounds of a desk are those of its node. -/
theorem Node.start_reader (r : Reader) : Node.start .setup (.reader r) = rounds .reader r.openSetup ∧
    Node.start .run (.reader r) = rounds .reader r.openRun ∧
    Node.resume .setup (.reader r) = rounds .reader r.setupRound ∧
    Node.resume .run (.reader r) = rounds .reader r.runRound := ⟨rfl, rfl, rfl, rfl⟩

/-! ## Feeds -/

/-- What the dispatcher still has to do about the change that it applied last. -/
structure Duty where
  /-- The readers that are to be told. -/
  left : List Nat := []
  /-- The reader with whose watcher it has recorded the change, and whom it calls next. -/
  recorded : Option Nat := none
  deriving DecidableEq

structure Feed (s : Structure) where
  /-- The clock of times that are written down. -/
  wall : Nat
  /-- How long a change is on its way at least. -/
  delay : Span
  replica : Replica s := {}
  /-- The samples that were published, the oldest first. -/
  published : List Sample := []
  /-- The changes that were applied, the oldest first. -/
  applied : List s.Change := []
  duty : Duty := {}
  desk : Nat → Desk := fun _ => {}

namespace Feed

variable {s : Structure}

inductive Move (s : Structure) where
  | tick (time : Nat)
  | subscribe (reader map : Nat) (name : String) (settings : ReaderSettings)
  /-- Queues a change that is no sample. -/
  | submit (now : Nat) (change : s.Change)
  | publish (now : Nat) (p : Sample)
  | apply (now : Nat)
  | record
  | call
  | desk (reader : Nat) (move : Desk.Move)

def setDesk (f : Feed s) (i : Nat) (k : Desk) : Feed s := { f with desk := Function.update f.desk i k }

def latest (f : Feed s) : Option Sample := Sample.latest? s f.replica.contents

def onLatch (k : Desk) (change : Latch → Latch) : Desk :=
  { k with watcher := { k.watcher with latch := change k.watcher.latch } }

def act (f : Feed s) : Move s → Option (Feed s)
  | .tick time => some { f with wall := f.wall + time }
  | .subscribe i map name settings =>
    if (f.desk i).stage = .absent then
      let (number, replica) := f.replica.listen i
      some ({ f with replica }.setDesk i
        { stage := .subscribed, reader := .new map name settings number })
    else none
  | .submit now change => some { f with replica := f.replica.submit now f.delay change }
  | .publish now p => some { f with
      replica := f.replica.submit now f.delay (p.publication s), published := f.published ++ [p] }
  | .apply now => match f.duty, f.replica.queue with
    | ⟨[], none⟩, c :: _ => (f.replica.advance? now).map fun (replica, told) =>
        { f with replica, applied := f.applied ++ [c.change], duty := ⟨told, none⟩ }
    | _, _ => none
  | .record => match f.duty with
    | ⟨i :: left, none⟩ =>
      some ({ f with duty := ⟨left, some i⟩ }.setDesk i (onLatch (f.desk i) Latch.record))
    | _ => none
  | .call => match f.duty with
    | ⟨left, some i⟩ =>
      some ({ f with duty := ⟨left, none⟩ }.setDesk i (onLatch (f.desk i) Latch.call))
    | _ => none
  | .desk i m => ((f.desk i).act f.wall f.latest m).map (f.setDesk i)

def samples (f : Feed s) : List Sample := f.applied.filterMap (Sample.carried? s)

end Feed

end Lagmeter
