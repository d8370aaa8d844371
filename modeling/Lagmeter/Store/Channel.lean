import Lagmeter.Draws
import Lagmeter.Store.Contents

/-!
# Probe channels

A channel uses one structure to carry a sample from its writer to its readers: a version and the
moment of its write, embedded in an entry of a reserved key. Everything else in the structure is
background. In the routing table a sample is a default route, and of several default routes the one
of the highest metric counts.
-/

namespace Lagmeter

structure Sample where
  version : Nat
  writtenAt : Nat
  deriving DecidableEq, Repr, Inhabited

namespace Sample

/-! ## Embedding -/

def toEntry (p : Sample) : ArpEntry :=
  { mac := .ofWord p.version, expiry := p.version, stale := p.writtenAt, lastArp := p.writtenAt }

def ofEntry (e : ArpEntry) : Sample := ⟨e.expiry, e.stale⟩

def toPort (p : Sample) : Identifier := ⟨.ofNat p.writtenAt, .ofNat p.version⟩

def ofPort (i : Identifier) : Sample := ⟨i.low.toNat, i.high.toNat⟩

/-- The gateway of the routes that carry samples. -/
def gateway : Address := .ofOctets 127 0 0 1

def toRoute (p : Sample) : Route :=
  { destination := .unspecified, width := 0, gateway, metric := p.version
    installed := p.writtenAt }

def ofRoute (r : Route) : Sample := ⟨r.metric, r.installed⟩

def publication (p : Sample) : (s : Structure) → s.Change
  | .macTable => (⟨.zero, p.toPort⟩ : Structure.Put Mac Identifier)
  | .arpTable | .arpMergedMap => (⟨.unspecified, p.toEntry⟩ : Structure.Put Address ArpEntry)
  | .routingTable => (.add p.toRoute : Structure.Edit Route)

/-! ## Reading -/

/-- The later of two routes if its metric is not lower. -/
def newer (r : Option Route) (other : Route) : Option Route :=
  match r with
  | none => some other
  | some r => if r.metric ≤ other.metric then some other else some r

def latest? : (s : Structure) → s.Contents → Option Sample
  | .macTable, (t : Table Mac Identifier) => (t.get? .zero).map ofPort
  | .arpTable, (t : Table Address ArpEntry) => (t.get? .unspecified).map ofEntry
  | .arpMergedMap, (t : Table Address ArpEntry) => (t.get? .unspecified).map ofEntry
  | .routingTable, (routes : List Route) =>
    ((routes.filter Route.isDefault).foldl newer none).map ofRoute

end Sample

/-! ## Background -/

/-- One user's access to a structure: it remembers the background routes that it added. -/
structure Channel where
  name : String
  routes : List Route := []
  deriving Inhabited

namespace Channel

/-- A background route, whose gateway does not matter. -/
def backgroundRoute (destination gateway : Nat) : Route :=
  { destination := ⟨destination % Nat.pow 2 32⟩, width := 32, gateway := ⟨gateway % Nat.pow 2 32⟩
    metric := 0, installed := 0 }

/-- What it takes to change a structure: the changes in their order, the channel and the draws
afterwards. -/
structure Work (s : Structure) where
  changes : List s.Change
  channel : Channel
  draws : Draws

def entry (d : Draws) : ArpEntry × Draws :=
  let (word, d) := d.next
  ({ mac := .ofWord word, expiry := 0, stale := 0, lastArp := 0 }, d)

def tableChange (c : Channel) (d : Draws) (key : Int) : Work .arpTable :=
  let (e, d) := entry d
  ⟨[(⟨.ofKey key, e⟩ : Structure.Put Address ArpEntry)], c, d⟩

def fill (c : Channel) (d : Draws) (key : Int) : (s : Structure) → Work s
  | .arpTable => tableChange c d key
  | .arpMergedMap => let w := tableChange c d key; ⟨w.changes, w.channel, w.draws⟩
  | .macTable =>
    let (high, d) := d.next
    let (low, d) := d.next
    let port : Identifier := ⟨.ofNat high, .ofNat low⟩
    ⟨[(⟨.ofWord (key % 0x10000000000000000).toNat, port⟩ : Structure.Put Mac Identifier)], c, d⟩
  | .routingTable =>
    let (gateway, d) := d.next
    let route := backgroundRoute (Address.ofKey key).value gateway
    ⟨[(.add route : Structure.Edit Route)], { c with routes := c.routes ++ [route] }, d⟩

/-- One background entry for each key but zero, which is reserved. -/
def populate (s : Structure) (c : Channel) (d : Draws) : List Int → Work s
  | [] => ⟨[], c, d⟩
  | key :: rest =>
    if key = 0 then populate s c d rest
    else
      let first := fill c d key s
      let others := populate s first.channel first.draws rest
      { others with changes := first.changes ++ others.changes }

def populated (keys : List Int) : Nat := (keys.filter (· ≠ 0)).length

/-! ## Churn -/

/-- The list without the entry at an index, whose place the last entry takes. -/
def swapRemove {α : Type} (xs : List α) (i : Nat) : List α :=
  match xs.getLast? with
  | none => xs
  | some last => (xs.set i last).dropLast

/-- Adds a route and removes one of those that are there then. -/
def swap (c : Channel) (d : Draws) : Work .routingTable :=
  let (destination, d) := d.next
  let (gateway, d) := d.next
  let route := backgroundRoute (destination % (Nat.pow 2 32 - 1) + 1) gateway
  let routes := c.routes ++ [route]
  let (i, d) := d.below routes.length
  ⟨[(.add route : Structure.Edit Route), (.remove (routes.getD i route) : Structure.Edit Route)],
    { c with routes := swapRemove routes i }, d⟩

def swaps : Nat → Channel → Draws → Work .routingTable
  | 0, c, d => ⟨[], c, d⟩
  | n + 1, c, d =>
    let first := swap c d
    let others := swaps n first.channel first.draws
    { others with changes := first.changes ++ others.changes }

/-- Additions and removals in turn, so that the size stays. Only routes are churned. -/
def churn (c : Channel) (d : Draws) (operations : Nat) : (s : Structure) → Work s
  | .routingTable => swaps (operations / 2) c d
  | _ => ⟨[], c, d⟩

def churned (s : Structure) (operations : Nat) : Nat :=
  if s = .routingTable then operations - operations % 2 else 0

end Channel

end Lagmeter
