import Lagmeter.Group.Collective
import Lagmeter.Group.Mesh

/-!
# Groups at work

Every rank of a group has a program. A rank's next call is carried out by the mesh, or has to
wait.
-/

namespace Lagmeter

/-- What the ranks of a group share: the mesh, and what they told. -/
structure Party where
  mesh : Mesh
  events : Array (Nat × Event) := #[]

namespace Party

def ofSize (size : Nat) : Party := { mesh := .ofSize size }

def turn {α : Type} (rank : Nat) (d : Dialogue Link α) (p : Party) : Turn (Dialogue Link α) Party :=
  match d with
  | .done _ => .finish
  | .ask (.log e) next => .act (next ()) { p with events := p.events.push (rank, e) } [] []
  | .ask call next =>
    match p.mesh.perform rank call with
    | .answered a mesh raised => .act (next a) { p with mesh } raised []
    | .wait signal => .halt (.ask call next) p { signals := [signal] }

def system (α : Type) : System (Dialogue Link α) Party := ⟨fun rank _ d p => turn rank d p⟩

/-- The programs of all ranks, in the order of their turns. -/
def run {α : Type} (fuel : Nat) (programs : List (Dialogue Link α)) :
    Schedule (Dialogue Link α) Party :=
  (Schedule.start programs (ofSize programs.length)).run (system α) fuel

def result? {α : Type} : Dialogue Link α → Option α
  | .done a => some a
  | .ask _ _ => none

end Party

end Lagmeter
