/-!
# The life of a node

A node passes through its states one by one. Each can be entered from the one before it only.
-/

namespace Lagmeter

inductive NodeState where
  | created
  | ready
  | measured
  | closed
  | done
  deriving DecidableEq, Repr, Inhabited

namespace NodeState

def all : List NodeState := [.created, .ready, .measured, .closed, .done]

def name : NodeState → String
  | .created => "Created"
  | .ready => "ReadyForMeasurement"
  | .measured => "Measured"
  | .closed => "Closed"
  | .done => "Done"

def ofName? (name : String) : Option NodeState := all.find? (·.name = name)

def next? : NodeState → Option NodeState
  | .created => some .ready
  | .ready => some .measured
  | .measured => some .closed
  | .closed => some .done
  | .done => none

end NodeState

/-- A state that was to be entered from one that does not come before it. -/
structure OutOfOrder where
  current : NodeState
  target : NodeState
  deriving DecidableEq, Repr

def OutOfOrder.message (e : OutOfOrder) : String :=
  s!"cannot enter {e.target.name} from {e.current.name}"

def NodeState.advance (s target : NodeState) : Except OutOfOrder NodeState :=
  if s.next? = some target then .ok target else .error ⟨s, target⟩

end Lagmeter
