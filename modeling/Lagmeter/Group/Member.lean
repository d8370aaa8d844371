import Lagmeter.Json.Record

/-!
# Members of a group
-/

namespace Lagmeter

/-- One participant of a group, on a host. -/
structure Member where
  rank : Nat
  size : Nat
  host : String
  deriving DecidableEq, Repr, Inhabited

namespace Member

def isRoot (m : Member) : Bool := m.rank = 0

/-- The name of the participant among all of one experiment. -/
def label (m : Member) : String := s!"{m.host}-{m.rank}"

def text (m : Member) : String := s!"{m.host} ({m.rank},{m.size})"

def toJson (m : Member) : Json :=
  .record [("rank", .ofNat m.rank), ("group_size", .ofNat m.size), ("host_name", .ofText m.host)]

def ofJson? (j : Json) : Option Member := do
  match ← j.fields? ["rank", "group_size", "host_name"] with
  | [rank, size, host] =>
    return ⟨← Json.required? Json.word? rank, ← Json.required? Json.word? size,
      ← Json.required? Json.text? host⟩
  | _ => none

end Member

end Lagmeter
