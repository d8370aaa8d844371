import Lagmeter.Group.Link
import Lagmeter.Group.Member
import Lagmeter.Schedule

/-!
# The mesh

Within one process every rank has a queue to every other rank. A rank that closes its end can
neither send nor receive any more, and nobody can send to it. What it sent before can still be
received.
-/

namespace Lagmeter

/-- The queues between the ranks of a group, and who has not closed. -/
structure Mesh where
  size : Nat
  queues : Array (List Frame)
  isOpen : Array Bool

namespace Mesh

def ofSize (size : Nat) : Mesh := ⟨size, .replicate (size * size) [], .replicate size true⟩

def formed (size : Nat) : Event := ⟨.debug, s!"Created in-process group of {size} ranks"⟩

/-- Told by each rank when it has joined. -/
def ready (m : Member) : Event := ⟨.debug, s!"Process group ready over in-process: {m.text}"⟩

/-- Told by each rank when it closes its end. -/
def closing (m : Member) : Event := ⟨.debug, s!"Closing in-process transport for rank {m.rank}"⟩

/-- Frames on their way from one rank to another, the oldest first. -/
def queue (m : Mesh) (sender receiver : Nat) : List Frame :=
  m.queues.getD (sender * m.size + receiver) []

def setQueue (m : Mesh) (sender receiver : Nat) (frames : List Frame) : Mesh :=
  { m with queues := m.queues.setIfInBounds (sender * m.size + receiver) frames }

def openAt (m : Mesh) (rank : Nat) : Bool := m.isOpen.getD rank false

/-- Refuses a peer that is no other rank of the group. -/
def checkPeer (m : Mesh) (rank peer : Nat) : Except GroupError Unit :=
  if m.size ≤ peer ∨ peer = rank then .error (.invalidRank peer m.size) else .ok ()

def send (m : Mesh) (rank peer : Nat) (frame : Frame) : Except GroupError Mesh :=
  match m.checkPeer rank peer with
  | .error e => .error e
  | .ok () =>
    if m.openAt rank && m.openAt peer then
      .ok (m.setQueue rank peer (m.queue rank peer ++ [frame]))
    else .error (.disconnected peer)

/-- The next frame from a peer. Nothing means that none has arrived and one may still come. -/
def receive (m : Mesh) (rank peer : Nat) : Option (Except GroupError (Frame × Mesh)) :=
  match m.checkPeer rank peer with
  | .error e => some (.error e)
  | .ok () =>
    if !m.openAt rank then some (.error (.disconnected peer))
    else match m.queue peer rank with
      | f :: rest => some (.ok (f, m.setQueue peer rank rest))
      | [] => if m.openAt peer then none else some (.error (.disconnected peer))

def close (m : Mesh) (rank : Nat) : Mesh := { m with isOpen := m.isOpen.setIfInBounds rank false }

/-- Whom a rank's closing wakes: all that may wait for a frame of it. -/
def bereaved (m : Mesh) (rank : Nat) : List Signal :=
  (List.range m.size).map fun peer => .arrival peer rank

/-- What a call to the transport gives: an answer, or a signal to wait for. -/
inductive Reply (call : LinkCall) where
  | answered (answer : call.Answer) (mesh : Mesh) (raised : List Signal)
  | wait (signal : Signal)

def perform (m : Mesh) (rank : Nat) : (call : LinkCall) → Reply call
  | .send peer frame => match m.send rank peer frame with
    | .ok next => .answered (.ok ()) next [.arrival peer rank]
    | .error e => .answered (.error e) m []
  | .receive peer => match m.receive rank peer with
    | none => .wait (.arrival rank peer)
    | some (.ok (frame, next)) => .answered (.ok frame) next []
    | some (.error e) => .answered (.error e) m []
  | .close => .answered (.ok ()) (m.close rank) (m.bereaved rank)
  | .leave => .answered () (m.close rank) (m.bereaved rank)
  | .log _ => .answered () m []

/-- Closes the end of a rank, and tells of it. -/
def shut (m : Member) : Dialogue Link (Except GroupError Unit) := do
  Link.tell (closing m)
  Link.close

end Mesh

end Lagmeter
