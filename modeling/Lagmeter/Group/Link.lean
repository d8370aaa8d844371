import Lagmeter.Dialogue
import Lagmeter.Group.Codec
import Lagmeter.Log.Event

/-!
# Links between ranks

What a rank can ask of the transport that joins it to its group, and what may go wrong.
-/

namespace Lagmeter

/-- Why the root cannot combine what the ranks contributed, or a reply makes no sense. -/
inductive CombineError where
  | source (rank : Nat) (kind : String)
  | contributed (rank : Nat) (kind : String)
  | uneven (rank length first : Nat)
  | emptyGroup
  | replies (count size : Nat)
  | unexpectedReply (kind : String)
  | notWords (kind : String)
  | noBroadcastValue
  | noReducedValue
  | noIdentifier
  | badLength (length : Int64)
  | notHello (operation : Operation)
  /-- What another rank reported. -/
  | reported (reason : String)
  deriving DecidableEq

namespace CombineError

def message : CombineError → String
  | .source rank kind => s!"broadcast source {rank} contributed {kind}"
  | .contributed rank kind => s!"rank {rank} contributed {kind}"
  | .uneven rank length first =>
    s!"rank {rank} contributed {length} values, rank 0 contributed {first}"
  | .emptyGroup => "reduction over an empty group"
  | .replies count size => s!"{count} replies for a group of {size}"
  | .unexpectedReply kind => s!"unexpected {kind} reply to gather"
  | .notWords kind => s!"expected words, got {kind}"
  | .noBroadcastValue => "broadcast returned no value"
  | .noReducedValue => "reduction returned no value"
  | .noIdentifier => "identifier broadcast was empty"
  | .badLength length => s!"invalid sample length {length.toInt}"
  | .notHello operation => s!"expected a hello frame, got {operation.name}"
  | .reported reason => reason

end CombineError

/-- One step of a group: an operation and its number. -/
structure Step where
  operation : Operation
  sequence : Nat
  deriving DecidableEq

def Step.text (s : Step) : String := Frame.stepText s.operation s.sequence

/-- Why a collective operation or a transport fails. -/
inductive GroupError where
  | disconnected (peer : Nat)
  | outOfStep (rank : Nat) (expected found : Step)
  | collective (cause : CombineError)
  | invalidRank (rank size : Nat)
  | frameTooLarge (octets : Nat)
  | timeout (reason : String)
  | transport (reason : String)
  | codec (cause : CodecError)
  deriving DecidableEq

namespace GroupError

def message : GroupError → String
  | .disconnected peer => s!"peer {peer} disconnected"
  | .outOfStep rank expected found =>
    s!"rank {rank} is out of step: expected {expected.text}, got {found.text}"
  | .collective cause => s!"collective failed: {cause.message}"
  | .invalidRank rank size => s!"invalid rank {rank} for a group of {size}"
  | .frameTooLarge octets => s!"frame of {octets} bytes exceeds the maximum frame size"
  | .timeout reason => s!"timed out: {reason}"
  | .transport reason => s!"I/O error: {reason}"
  | .codec cause => s!"codec error: {cause.message}"

/-- The message, followed by the message of what caused the error. -/
def reasons : GroupError → List String
  | e@(.transport reason) => [e.message, reason]
  | e@(.codec cause) => [e.message, cause.message]
  | e => [e.message]

end GroupError

/-- A call to the transport of a rank. `leave` gives the transport up. -/
inductive LinkCall where
  | send (peer : Nat) (frame : Frame)
  | receive (peer : Nat)
  | close
  | leave
  | log (event : Event)

def LinkCall.Answer : LinkCall → Type
  | .send _ _ => Except GroupError Unit
  | .receive _ => Except GroupError Frame
  | .close => Except GroupError Unit
  | .leave => Unit
  | .log _ => Unit

/-- What a rank can ask of its transport. -/
abbrev Link : Interface := ⟨LinkCall, LinkCall.Answer⟩

namespace Link

def send (peer : Nat) (frame : Frame) : Dialogue Link (Except GroupError Unit) :=
  .ask (LinkCall.send peer frame) .done

def receive (peer : Nat) : Dialogue Link (Except GroupError Frame) := .ask (LinkCall.receive peer) .done

def close : Dialogue Link (Except GroupError Unit) := .ask LinkCall.close .done

def leave : Dialogue Link Unit := .ask LinkCall.leave .done

def tell (event : Event) : Dialogue Link Unit := .ask (LinkCall.log event) .done

def log (level : Level) (text : String) : Dialogue Link Unit := tell ⟨level, text⟩

end Link

end Lagmeter
