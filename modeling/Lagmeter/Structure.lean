import Lagmeter.Json.Record

/-!
# The structures under test
-/

namespace Lagmeter

inductive Structure where
  | macTable
  | arpTable
  | routingTable
  | arpMergedMap
  deriving DecidableEq, Repr, Inhabited

namespace Structure

def all : List Structure := [.macTable, .arpTable, .routingTable, .arpMergedMap]

def title : Structure → String
  | .macTable => "MAC Table"
  | .arpTable => "ARP Table"
  | .routingTable => "Routing Table"
  | .arpMergedMap => "ARP Merged Map"

/-- The short name in tags and in names of structures. -/
def label : Structure → String
  | .macTable => "mac"
  | .arpTable => "arp"
  | .routingTable => "route"
  | .arpMergedMap => "arpmm"

def option : Structure → String
  | .macTable => "mac-table"
  | .arpTable => "arp-table"
  | .routingTable => "routing-table"
  | .arpMergedMap => "arp-merged-map"

def variant : Structure → String
  | .macTable => "MacTable"
  | .arpTable => "ArpTable"
  | .routingTable => "RoutingTable"
  | .arpMergedMap => "ArpMergedMap"

def ofOption? (name : String) : Option Structure := all.find? (·.option = name)

def toJson (s : Structure) : Json := .ofText s.variant

def ofJson? (j : Json) : Option Structure := j.choice? (all.map fun s => (s.variant, s))

end Structure

end Lagmeter
