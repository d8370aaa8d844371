import Lagmeter.Scene.Ranks
import Lagmeter.Store.Hub

/-!
# Trials

In a trial every rank of a group has the same store, which applies each change at once and tells
all listeners. It fails as it is told: it may refuse to open a structure, and the first writes of
samples to each.
-/

namespace Lagmeter

structure TrialRules where
  /-- How far the clocks move on with a sample that is written. -/
  tick : Nat := 0
  /-- The writes of samples to each structure that fail. -/
  failing : Nat := 0
  /-- The structures that cannot be opened. -/
  unavailable : List String := []

/-- A store for trials: structures of one kind, and how each rank uses its own. -/
structure TrialStore (s : Structure) where
  rules : TrialRules
  shelf : Shelf s := []
  channels : List (Nat × Channel) := []
  /-- The writes that have failed, by the name of the structure. -/
  failed : List (String × Nat) := []
  draws : Draws := .ofSeed 1

namespace TrialStore

variable {s : Structure}

def refusal (name : String) : StoreError := .unavailable name "scripted"

def channel (t : TrialStore s) (rank : Nat) : Channel := (t.channels.lookup rank).getD { name := "" }

def replica (t : TrialStore s) (rank : Nat) : Replica s := t.shelf.get (t.channel rank).name

def setReplica (t : TrialStore s) (rank : Nat) (r : Replica s) : TrialStore s :=
  { t with shelf := t.shelf.set (t.channel rank).name r }

/-- Applies changes. Every listener is told of each. -/
def apply (t : TrialStore s) (rank : Nat) (changes : List s.Change) : TrialStore s × List Nat :=
  let r := t.replica rank
  (t.setReplica rank (r.applyAll changes).1, (changes.map fun _ => r.audience).flatten)

def carryOut (t : TrialStore s) (rank : Nat) (w : Channel.Work s) : TrialStore s × List Nat :=
  { t with channels := Table.put t.channels rank w.channel, draws := w.draws }.apply rank w.changes

def publish (t : TrialStore s) (rank : Nat) (p : Sample) :
    Effect (TrialStore s) (Except StoreError Unit) :=
  let name := (t.channel rank).name
  let failures := (t.failed.lookup name).getD 0
  if failures < t.rules.failing then
    { answer := .error (refusal name)
      store := { t with failed := Table.put t.failed name (failures + 1) } }
  else
    let (store, told) := t.apply rank [p.publication s]
    { answer := .ok (), store, told, elapsed := t.rules.tick }

def serve (t : TrialStore s) (rank : Nat) : (call : StoreCall) → Effect (TrialStore s) call.Answer
  | .populate keys =>
    let (store, told) := t.carryOut rank (Channel.populate s (t.channel rank) t.draws keys)
    { answer := .ok (Channel.populated keys), store, told }
  | .churn operations =>
    let (store, told) := t.carryOut rank (Channel.churn (t.channel rank) t.draws operations s)
    { answer := .ok (Channel.churned s operations), store, told }
  | .publish p => t.publish rank p
  | .observe => { answer := .ok (Sample.latest? s (t.replica rank).contents), store := t }
  | .unsubscribe number =>
    let (found, r) := (t.replica rank).unlisten number
    { answer := found, store := t.setReplica rank r }
  | .entries => { answer := (t.replica rank).size, store := t }

def openStructure (t : TrialStore s) (rank : Nat) (name : String) :
    Except StoreError Unit × TrialStore s :=
  if name ∈ t.rules.unavailable then (.error (refusal name), t)
  else
    (.ok (), { t with
      shelf := t.shelf.opened name, channels := Table.put t.channels rank { name } })

instance : Backend (TrialStore s) where
  serve rank _ call t := t.serve rank call
  openStructure rank name t := t.openStructure rank name
  subscribe rank t :=
    let (number, r) := (t.replica rank).listen rank
    (number, t.setReplica rank r)

end TrialStore

/-! ## Groups -/

namespace Trial

def scene (size wall : Nat) (files : Files) (s : Structure) (rules : TrialRules) :
    Scene (TrialStore s) :=
  .ofStore size wall files { rules }

/-- A rank that joins its group, follows a program and gives up its link. -/
def member {α : Type} (m : Member) (program : Dialogue Site α) : Dialogue Site α := do
  Site.link (Link.tell (Mesh.ready m))
  let a ← program
  Site.link Link.leave
  return a

end Trial

end Lagmeter
