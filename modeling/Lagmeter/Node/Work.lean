import Lagmeter.Dialogue
import Lagmeter.Fault
import Lagmeter.Journal
import Lagmeter.Store.Channel
import Lagmeter.Time.Span
import Lagmeter.Watcher

/-!
# The work of a node

What a node can ask of its surroundings: its store, its watcher and its clocks. A phase of a node
consists of rounds, and each round is a program that ends. A phase may go on for ever, a round
cannot.
-/

namespace Lagmeter

/-! ## The store -/

/-- A call to the store of a node. -/
inductive StoreCall where
  | populate (keys : List Int)
  | churn (operations : Nat)
  | publish (sample : Sample)
  | observe
  | unsubscribe (listener : Nat)
  | entries

def StoreCall.Answer : StoreCall → Type
  | .populate _ => Except StoreError Nat
  | .churn _ => Except StoreError Nat
  | .publish _ => Except StoreError Unit
  | .observe => Except StoreError (Option Sample)
  | .unsubscribe _ => Bool
  | .entries => Nat

/-- Whether a call is done by a helper, while its node waits. -/
def StoreCall.isLong : StoreCall → Bool
  | .populate _ | .churn _ => true
  | _ => false

/-! ## All calls -/

inductive WorkCall where
  | store (call : StoreCall)
  /-- Waits for a change. -/
  | await (timeout : Span)
  /-- Changes that the watcher was told of. -/
  | changes
  | sleep (time : Span)
  | sleepUntil (moment : Nat)
  /-- The clock that sleeps go by. -/
  | moment
  | wallClock
  /-- The clock that rates go by. -/
  | stopwatch
  | log (event : Event)

def WorkCall.Answer : WorkCall → Type
  | .store call => call.Answer
  | .await _ => WaitOutcome
  | .changes | .moment | .wallClock | .stopwatch => Nat
  | .sleep _ | .sleepUntil _ | .log _ => Unit

abbrev Work : Interface := ⟨WorkCall, WorkCall.Answer⟩

namespace Work

def store (call : StoreCall) : Dialogue Work call.Answer := .ask (WorkCall.store call) .done

def populate (keys : List Int) : Dialogue Work (Except StoreError Nat) := store (.populate keys)

def churn (operations : Nat) : Dialogue Work (Except StoreError Nat) := store (.churn operations)

def publish (sample : Sample) : Dialogue Work (Except StoreError Unit) := store (.publish sample)

def observe : Dialogue Work (Except StoreError (Option Sample)) := store .observe

def unsubscribe (listener : Nat) : Dialogue Work Bool := store (.unsubscribe listener)

def entries : Dialogue Work Nat := store .entries

def await (timeout : Span) : Dialogue Work WaitOutcome := .ask (WorkCall.await timeout) .done

def changes : Dialogue Work Nat := .ask WorkCall.changes .done

def sleep (time : Span) : Dialogue Work Unit := .ask (WorkCall.sleep time) .done

def sleepUntil (moment : Nat) : Dialogue Work Unit := .ask (WorkCall.sleepUntil moment) .done

def moment : Dialogue Work Nat := .ask WorkCall.moment .done

def wallClock : Dialogue Work Nat := .ask WorkCall.wallClock .done

def stopwatch : Dialogue Work Nat := .ask WorkCall.stopwatch .done

def log (level : Level) (text : String) : Dialogue Work Unit :=
  .ask (WorkCall.log ⟨level, text⟩) .done

end Work

/-! ## Phases -/

/-- How a round ends: the phase goes on with another one, or is over. -/
inductive Round (σ : Type) where
  | again (state : σ)
  | over (state : σ) (result : Except Fault Unit)

namespace Round

def map {σ τ : Type} (f : σ → τ) : Round σ → Round τ
  | .again s => .again (f s)
  | .over s r => .over (f s) r

end Round

/-! ## Failures of the store -/

/-- Failures in a row after which a node gives up. -/
def patience : Nat := 20

/-- How long a node waits after its `n`-th failure in a row. -/
def backoff (n : Nat) : Span := (Span.ofMillis 10).times n

/-! ## Windows -/

structure Window where
  start : Option Nat := none
  finish : Option Nat := none
  deriving DecidableEq, Repr, Inhabited

namespace Window

/-- A time of a name, or a stroke for none. -/
def line (name : String) (time : Option Nat) : String := name ++ " " ++ time.elim "-" toString

/-- The page of the times of both phases that are timed. -/
def page (warmup measure : Window) : Journal.Page :=
  { name := "timestamps"
    lines := [line "startwarmup" warmup.start, line "endwarmup" warmup.finish,
      line "startbenchmark" measure.start, line "endbenchmark" measure.finish] }

end Window

end Lagmeter
