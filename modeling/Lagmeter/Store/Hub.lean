import Lagmeter.Store.Replica

/-!
# Hubs

A hub holds the replicated structures of one process by kind and name. Whoever opens the same name
of the same kind gets the same structure.
-/

namespace Lagmeter

abbrev Shelf (s : Structure) := List (String × Replica s)

namespace Shelf

variable {s : Structure}

def find? (shelf : Shelf s) (name : String) : Option (Replica s) := shelf.lookup name

/-- The structure of a name. One that was never opened is empty. -/
def get (shelf : Shelf s) (name : String) : Replica s := (shelf.find? name).getD {}

def set (shelf : Shelf s) (name : String) (r : Replica s) : Shelf s := Table.put shelf name r

/-- Makes sure that there is a structure of a name. -/
def opened (shelf : Shelf s) (name : String) : Shelf s := shelf.set name (shelf.get name)

end Shelf

structure Hub where
  delay : Span
  mac : Shelf .macTable := []
  arp : Shelf .arpTable := []
  routes : Shelf .routingTable := []
  merged : Shelf .arpMergedMap := []

namespace Hub

def shelf (h : Hub) : (s : Structure) → Shelf s
  | .macTable => h.mac
  | .arpTable => h.arp
  | .routingTable => h.routes
  | .arpMergedMap => h.merged

def setShelf (h : Hub) : (s : Structure) → Shelf s → Hub
  | .macTable, mac => { h with mac }
  | .arpTable, arp => { h with arp }
  | .routingTable, routes => { h with routes }
  | .arpMergedMap, merged => { h with merged }

def get (h : Hub) (s : Structure) (name : String) : Replica s := (h.shelf s).get name

def set (h : Hub) (s : Structure) (name : String) (r : Replica s) : Hub :=
  h.setShelf s ((h.shelf s).set name r)

/-- Makes sure that there is a structure of a kind and a name. -/
def opened (h : Hub) (s : Structure) (name : String) : Hub := h.set s name (h.get s name)

/-- Submits changes and waits until they are applied. The second part is who was told. -/
def write (h : Hub) (now : Nat) (s : Structure) (name : String) (changes : List s.Change) :
    Hub × List Nat :=
  let r := changes.foldl (fun r c => r.submit now h.delay c) (h.get s name)
  let (r, told) := r.flush
  (h.set s name r, told)

end Hub

end Lagmeter
