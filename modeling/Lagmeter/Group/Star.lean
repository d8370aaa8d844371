import Lagmeter.Group.Link
import Lagmeter.Schedule
import Lagmeter.Time.Span

/-!
# The star

Over a network every rank has one connection, to the root. A connection carries octets in both
directions. A frame travels as its length in four octets, the lowest first, and the octets of the
frame. No frame may be longer than `maxFrame`.
-/

namespace Lagmeter.Star

/-- The longest frame that is sent or accepted, in octets. -/
def maxFrame : Nat := 16 * 1024 * 1024

/-! ## Pipes -/

/-- One direction of a connection: octets on their way, and whether more may come. -/
structure Pipe where
  octets : List UInt8 := []
  ended : Bool := false
  deriving Inhabited

def packed (f : Frame) : List UInt8 := Codec.octets 4 f.width ++ f.encode

/-- What reading a frame leaves behind: the frame or an error, the rest of the pipe, and whether
the connection is given up. -/
structure Reading where
  result : Except GroupError Frame
  pipe : Pipe
  dropped : Bool := false

/-- Reads `count` octets if they are all there. -/
def exactly (count : Nat) (octets : List UInt8) : Option (List UInt8 × List UInt8) :=
  if octets.length < count then none else some (octets.take count, octets.drop count)

def cutOff (peer : Nat) (p : Pipe) : Option Reading :=
  if p.ended then some ⟨.error (.disconnected peer), ⟨[], true⟩, true⟩ else none

/-- Reads the next frame of a peer. Nothing means that more octets have to come. -/
def read (peer : Nat) (p : Pipe) : Option Reading :=
  match Codec.number? 4 p.octets with
  | none => cutOff peer p
  | some (length, rest) =>
    if maxFrame < length then some { result := .error (.frameTooLarge length), pipe := { p with octets := rest } }
    else match exactly length rest with
      | none => cutOff peer p
      | some (body, rest) =>
        let result := match Frame.decode body with
          | .ok f => .ok f
          | .error e => .error (.codec e)
        some { result, pipe := { p with octets := rest } }

/-- The pipe with a frame sent, unless the frame is too long or nobody reads. -/
def write (readerGone : Bool) (p : Pipe) (f : Frame) : Except GroupError Pipe :=
  if maxFrame < f.width then .error (.frameTooLarge f.width)
  else if readerGone then .error (.transport "Broken pipe (os error 32)")
  else .ok { p with octets := p.octets ++ packed f }

/-! ## Joining -/

/-- The frame with which a rank announces itself. -/
def hello (rank : Nat) : Frame := ⟨.hello, 0, .words [Int64.ofInt rank]⟩

def announced (size : Nat) (f : Frame) : Except GroupError Nat :=
  match f.operation, f.payload with
  | .hello, .words [w] =>
    if w.toInt < 0 then .error (.invalidRank (Nat.pow 2 64 - 1) size)
    else
      let rank := w.toInt.toNat
      if rank = 0 ∨ size ≤ rank then .error (.invalidRank rank size) else .ok rank
  | operation, _ => .error (.collective (.notHello operation))

/-- The first frame of a client. A client that says nothing is waited for. -/
def greeting (size : Nat) (p : Pipe) : Option (Except GroupError (Nat × Pipe)) :=
  (read 0 p).map fun r => match r.result with
    | .error (.disconnected _) => .error (.transport "early eof")
    | .error e => .error e
    | .ok f => (announced size f).map fun rank => (rank, r.pipe)

def missing (size : Nat) (joined : List (Nat × Pipe)) : List Nat :=
  (List.range' 1 (size - 1)).filter fun r => (joined.lookup r).isNone

/-- Why a group is not complete in time. -/
def late (size : Nat) (joined : List (Nat × Pipe)) (timeout : Span) : GroupError :=
  .timeout s!"ranks {missing size joined} did not join within {timeout.exact}"

/-- Accepts clients as they arrive, until all ranks are connected. Only the first client of each rank
counts. -/
def acceptAll (size : Nat) (timeout : Span) (connected : Nat) (joined : List (Nat × Pipe)) :
    List Pipe → Except GroupError (List (Nat × Pipe))
  | [] => if size ≤ connected then .ok joined else .error (late size joined timeout)
  | client :: rest =>
    if size ≤ connected then .ok joined
    else match greeting size client with
      | none => .error (late size joined timeout)
      | some (.error e) => .error e
      | some (.ok (rank, pipe)) =>
        if (joined.lookup rank).isSome then acceptAll size timeout connected joined rest
        else acceptAll size timeout (connected + 1) (joined ++ [(rank, pipe)]) rest

/-- Accepts clients after those that have joined, until the group is whole or its time is over. -/
def accept (size : Nat) (timeout : Span) (joined : List (Nat × Pipe)) (clients : List Pipe) :
    Except GroupError (List (Nat × Pipe)) :=
  acceptAll size timeout (joined.length + 1) joined clients

/-! ## Addresses -/

/-- Why an address cannot be listened on, read from its text: it needs a port after the last
colon. -/
def addressError? (address : String) : Option GroupError :=
  match address.splitOn ":" with
  | [_] => some (.transport "invalid socket address")
  | parts =>
    match readWhole? (parts.getLastD "").toList with
    | some port => if port < 65536 then none else some (.transport "invalid port value")
    | none => some (.transport "invalid port value")

/-- Forms a group at an address: the clients that come are accepted. -/
def listen (address : String) (size : Nat) (timeout : Span) (clients : List Pipe) :
    Except GroupError (List (Nat × Pipe)) :=
  match addressError? address with
  | some e => .error e
  | none => accept size timeout [] clients

/-- What a rank that connects to the root meets first: a rank that is none of the group's peers is
refused, and then the network may not lead there. -/
def connectError? (reachable : Bool) (rank size : Nat) : Option GroupError :=
  if rank = 0 ∨ size ≤ rank then some (.invalidRank rank size)
  else if reachable then none
  else some (.transport "Network is unreachable (os error 101)")

end Star

/-! ## A whole group -/

/-- The connections of a group: for every rank but the root, the pipe to the root and the pipe from
it, and whether either end still holds the connection. -/
structure Star where
  size : Nat
  up : Array Star.Pipe
  down : Array Star.Pipe
  rootHolds : Array Bool
  peerHolds : Array Bool

namespace Star

/-- A group whose connections have carried nothing but greetings. -/
def ofSize (size : Nat) : Star :=
  ⟨size, .replicate size {}, .replicate size {}, .replicate size true, .replicate size true⟩

def checkPeer (s : Star) (rank peer : Nat) : Except GroupError Unit :=
  if s.size ≤ peer ∨ peer = rank then .error (.invalidRank peer s.size) else .ok ()

/-- Whether a rank holds its connection to a peer. Only the root has connections to all. -/
def holds (s : Star) (rank peer : Nat) : Bool :=
  if rank = 0 then s.rootHolds.getD peer false
  else peer = 0 && s.peerHolds.getD rank false

/-- Octets that a rank can read from a peer. -/
def inbox (s : Star) (rank peer : Nat) : Pipe :=
  if rank = 0 then s.up.getD peer {} else s.down.getD rank {}

def outbox (s : Star) (rank peer : Nat) : Pipe :=
  if rank = 0 then s.down.getD peer {} else s.up.getD rank {}

def setInbox (s : Star) (rank peer : Nat) (p : Pipe) : Star :=
  if rank = 0 then { s with up := s.up.setIfInBounds peer p }
  else { s with down := s.down.setIfInBounds rank p }

def setOutbox (s : Star) (rank peer : Nat) (p : Pipe) : Star :=
  if rank = 0 then { s with down := s.down.setIfInBounds peer p }
  else { s with up := s.up.setIfInBounds rank p }

/-- Gives up the connection to one peer: what was sent can still be read, and then the pipe
ends. -/
def drop (s : Star) (rank peer : Nat) : Star :=
  let s := s.setOutbox rank peer { s.outbox rank peer with ended := true }
  if rank = 0 then { s with rootHolds := s.rootHolds.setIfInBounds peer false }
  else { s with peerHolds := s.peerHolds.setIfInBounds rank false }

/-- The ranks that a rank is connected to. -/
def neighbours (s : Star) (rank : Nat) : List Nat :=
  if rank = 0 then List.range' 1 (s.size - 1) else [0]

def close (s : Star) (rank : Nat) : Star :=
  ((s.neighbours rank).filter (s.holds rank)).foldl (fun s peer => s.drop rank peer) s

def send (s : Star) (rank peer : Nat) (f : Frame) : Except GroupError Unit × Star :=
  match s.checkPeer rank peer with
  | .error e => (.error e, s)
  | .ok () =>
    if !s.holds rank peer then (.error (.disconnected peer), s)
    else match write (!s.holds peer rank) (s.outbox rank peer) f with
      | .error e => (.error e, s.drop rank peer)
      | .ok p => (.ok (), s.setOutbox rank peer p)

/-- The next frame from a peer. Nothing means that more octets have to come. -/
def receive (s : Star) (rank peer : Nat) : Option (Except GroupError Frame × Star) :=
  match s.checkPeer rank peer with
  | .error e => some (.error e, s)
  | .ok () =>
    if !s.holds rank peer then some (.error (.disconnected peer), s)
    else (read peer (s.inbox rank peer)).map fun r =>
      let s := s.setInbox rank peer r.pipe
      (r.result, if r.dropped then s.drop rank peer else s)

/-- Whom a rank's closing wakes: all that it is connected to. -/
def bereaved (s : Star) (rank : Nat) : List Signal :=
  (s.neighbours rank).map fun peer => .arrival peer rank

/-- What a call to the transport gives: an answer, or a signal to wait for. -/
inductive Reply (call : LinkCall) where
  | answered (answer : call.Answer) (star : Star) (raised : List Signal)
  | wait (signal : Signal)

def perform (s : Star) (rank : Nat) : (call : LinkCall) → Reply call
  | .send peer frame =>
    let (answer, s) := s.send rank peer frame
    .answered answer s [.arrival peer rank]
  | .receive peer => match s.receive rank peer with
    | none => .wait (.arrival rank peer)
    | some (answer, s) => .answered answer s [.arrival peer rank]
  | .close => .answered (.ok ()) (s.close rank) (s.bereaved rank)
  | .leave => .answered () (s.close rank) (s.bereaved rank)
  | .log _ => .answered () s []

end Star

end Lagmeter
