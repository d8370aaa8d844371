import Lagmeter.Cycle.Lifecycle
import Lagmeter.Cycle.Phase
import Lagmeter.Group.Collective
import Lagmeter.Node.Basic

/-!
# Seats

A rank takes its seat in a group together with its node. From there it can use its link to the
group and let its node go through its phases.
-/

namespace Lagmeter

/-- What a rank can ask for during a cycle. -/
inductive SeatCall where
  | link (call : LinkCall)
  /-- Lets the node go through a phase. -/
  | phase (phase : NodePhase)
  /-- Lets the node write its logs. -/
  | report (journal : Journal)
  | role
  | outcome

def SeatCall.Answer : SeatCall → Type
  | .link call => call.Answer
  | .phase _ => Except Fault Unit
  | .report _ => Except Fault Unit
  | .role => Role
  | .outcome => Outcome

/-- What a rank can ask for during a cycle. -/
abbrev Seat : Interface := ⟨SeatCall, SeatCall.Answer⟩

namespace Seat

def link {α : Type} (d : Dialogue Link α) : Dialogue Seat α := d.lift SeatCall.link fun _ => id

def phase (p : NodePhase) : Dialogue Seat (Except Fault Unit) := .ask (SeatCall.phase p) .done

def report (j : Journal) : Dialogue Seat (Except Fault Unit) := .ask (SeatCall.report j) .done

def role : Dialogue Seat Role := .ask SeatCall.role .done

def outcome : Dialogue Seat Outcome := .ask SeatCall.outcome .done

def log (level : Level) (text : String) : Dialogue Seat Unit := link (Link.log level text)

end Seat

end Lagmeter
