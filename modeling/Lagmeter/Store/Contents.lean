import Lagmeter.Identifier
import Lagmeter.Network.Address
import Lagmeter.Structure

/-!
# What replicated structures hold

Three of the structures are tables, in which a later entry of a key replaces an earlier one. The
routing table is a set of routes.
-/

namespace Lagmeter

inductive StoreError where
  | closed (name : String)
  | unavailable (name reason : String)
  | malformed (name reason : String)
  deriving DecidableEq, Repr

def StoreError.message : StoreError → String
  | .closed name => s!"store {name} is closed"
  | .unavailable name reason => s!"store {name} is unavailable: {reason}"
  | .malformed name reason => s!"malformed value in {name}: {reason}"

/-! ## Tables -/

abbrev Table (κ α : Type) := List (κ × α)

namespace Table

variable {κ α : Type} [DecidableEq κ]

def get? (t : Table κ α) (key : κ) : Option α := t.lookup key

/-- The table with an entry replaced or added. -/
def put (t : Table κ α) (key : κ) (a : α) : Table κ α :=
  match t with
  | [] => [(key, a)]
  | (k, b) :: rest => if k = key then (k, a) :: rest else (k, b) :: put rest key a

end Table

/-! ## The four structures -/

namespace Structure

def Contents : Structure → Type
  | .macTable => Table Mac Identifier
  | .arpTable | .arpMergedMap => Table Address ArpEntry
  | .routingTable => List Route

structure Put (κ α : Type) where
  key : κ
  value : α

inductive Edit (α : Type) where
  | add (a : α)
  | remove (a : α)

/-- A change of a structure of a kind. -/
def Change : Structure → Type
  | .macTable => Put Mac Identifier
  | .arpTable | .arpMergedMap => Put Address ArpEntry
  | .routingTable => Edit Route

def vacant : (s : Structure) → s.Contents
  | .macTable => ([] : Table Mac Identifier)
  | .arpTable => ([] : Table Address ArpEntry)
  | .arpMergedMap => ([] : Table Address ArpEntry)
  | .routingTable => ([] : List Route)

def count : (s : Structure) → s.Contents → Nat
  | .macTable, (t : Table Mac Identifier) => t.length
  | .arpTable, (t : Table Address ArpEntry) => t.length
  | .arpMergedMap, (t : Table Address ArpEntry) => t.length
  | .routingTable, (set : List Route) => set.length

/-- A set after an edit, and whether it is another set now. -/
def edited {α : Type} [DecidableEq α] (set : List α) : Edit α → List α × Bool
  | .add a => if a ∈ set then (set, false) else (set ++ [a], true)
  | .remove a => if a ∈ set then (set.filter (· ≠ a), true) else (set, false)

/-- The contents after a change, and whether it is one to tell of: a put always is. -/
def applied : (s : Structure) → s.Contents → s.Change → s.Contents × Bool
  | .macTable, (t : Table Mac Identifier), (p : Put Mac Identifier) => (t.put p.key p.value, true)
  | .arpTable, (t : Table Address ArpEntry), (p : Put Address ArpEntry) => (t.put p.key p.value, true)
  | .arpMergedMap, (t : Table Address ArpEntry), (p : Put Address ArpEntry) =>
    (t.put p.key p.value, true)
  | .routingTable, (set : List Route), (e : Edit Route) => edited set e

end Structure

end Lagmeter
