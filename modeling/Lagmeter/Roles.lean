import Lagmeter.Json.Record

/-!
# Roles

Ranks come in blocks of one writer and its readers, one block for each map. The ranks after the
last block are idle.
-/

namespace Lagmeter

inductive Role where
  | idle
  | writer (map : Nat)
  | reader (map : Nat)
  deriving DecidableEq, Repr, Inhabited

namespace Role

def map? : Role → Option Nat
  | .idle => none
  | .writer m | .reader m => some m

def text : Role → String
  | .idle => "idle"
  | .writer m => s!"writer (map {m})"
  | .reader m => s!"reader (map {m})"

def toJson : Role → Json
  | .idle => .ofText "Idle"
  | .writer m => .tagged "Writer" (.record [("map_id", .ofNat m)])
  | .reader m => .tagged "Reader" (.record [("map_id", .ofNat m)])

/-- The map of a role that has one. -/
def mapField? (j : Json) : Option Nat := do
  match ← j.fields? ["map_id"] with
  | [map] => Json.required? Json.word? map
  | _ => none

def ofJson? (j : Json) : Option Role := do
  match ← j.variant? with
  | ("Idle", content) => if Json.isUnit content then some .idle else none
  | ("Writer", some content) => (mapField? content).map .writer
  | ("Reader", some content) => (mapField? content).map .reader
  | _ => none

end Role

/-- More ranks are required than the group has. -/
structure Shortage where
  required : Nat
  available : Nat
  deriving DecidableEq, Repr

def Shortage.message (s : Shortage) : String :=
  s!"not enough nodes: {s.required} required, {s.available} available"

/-- How many maps there are, and how many readers each of them has. -/
structure RolePlan where
  maps : Nat
  readersPerMap : Nat
  deriving DecidableEq, Repr

namespace RolePlan

def block (p : RolePlan) : Nat := 1 + p.readersPerMap

def required (p : RolePlan) : Nat := p.maps * p.block

/-- Whether a group has a rank for every role. -/
def validate (p : RolePlan) (ranks : Nat) : Except Shortage Unit :=
  if ranks < p.required then .error ⟨p.required, ranks⟩ else .ok ()

def roleOf (p : RolePlan) (rank : Nat) : Role :=
  if p.required ≤ rank then .idle
  else if rank % p.block = 0 then .writer (rank / p.block)
  else .reader (rank / p.block)

def toJson (p : RolePlan) : Json :=
  .record [("maps", .ofNat p.maps), ("readers_per_map", .ofNat p.readersPerMap)]

def ofJson? (j : Json) : Option RolePlan := do
  match ← j.fields? ["maps", "readers_per_map"] with
  | [maps, readers] => return ⟨← Json.required? Json.word? maps, ← Json.required? Json.word? readers⟩
  | _ => none

end RolePlan

end Lagmeter
