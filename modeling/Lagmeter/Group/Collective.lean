import Lagmeter.Group.Link
import Lagmeter.Group.Member
import Lagmeter.Identifier

/-!
# Collective operations

In a collective operation every rank sends one contribution to the root, the root combines them,
and every rank gets one reply. The operations of a group are numbered. A frame of another number
or another operation is refused, and the root tells all ranks of a failure.
-/

namespace Lagmeter

/-- A part of a rank's program that uses its group. The state is the number of the last
operation. An error ends the part. -/
abbrev Collective (α : Type) := ExceptT GroupError (StateT Nat (Dialogue Link)) α

namespace Collective

def plain {α : Type} (d : Dialogue Link α) : Collective α :=
  ExceptT.lift (StateT.lift d)

def attempt {α : Type} (d : Dialogue Link (Except GroupError α)) : Collective α :=
  ExceptT.mk (StateT.lift d)

def log (level : Level) (text : String) : Collective Unit := plain (Link.log level text)

def start {α : Type} (c : Collective α) (sequence : Nat) :
    Dialogue Link (Except GroupError α × Nat) :=
  (c.run).run sequence

end Collective

namespace Exchange

/-- How the root makes one reply a rank out of one contribution a rank. -/
abbrev Combine := List Payload → Except CombineError (List Payload)

def frame (step : Step) (payload : Payload) : Frame := ⟨step.operation, step.sequence, payload⟩

/-- The data of a frame that belongs to the step. -/
def checked (peer : Nat) (step : Step) (f : Frame) : Except GroupError Payload :=
  if f.operation = step.operation ∧ f.sequence = step.sequence then .ok f.payload
  else .error (.outOfStep peer step ⟨f.operation, f.sequence⟩)

/-! ## All ranks but the root -/

def opened : Payload → Except GroupError Payload
  | .failure reason => .error (.collective (.reported reason))
  | payload => .ok payload

/-- Sends a contribution and waits for the reply. -/
def follow (step : Step) (contribution : Payload) : Dialogue Link (Except GroupError Payload) := do
  match ← Link.send 0 (frame step contribution) with
  | .error e => return .error e
  | .ok () =>
    match ← Link.receive 0 with
    | .error e => return .error e
    | .ok f => return (checked 0 step f).bind opened

/-! ## The root -/

/-- What the given ranks contribute, one after the other. A failure does not end the collection,
so that every rank that did contribute can be answered. -/
def collect (step : Step) : List Nat → Dialogue Link (List (Except GroupError Payload))
  | [] => return []
  | peer :: rest => do
    let received ← Link.receive peer
    return (received.bind (checked peer step)) :: (← collect step rest)

def gathered : List (Except GroupError Payload) → Except GroupError (List Payload)
  | [] => .ok []
  | .error e :: _ => .error e
  | .ok payload :: rest => (gathered rest).map (payload :: ·)

def answer (step : Step) : List (Nat × Payload) → Dialogue Link (Except GroupError Unit)
  | [] => return .ok ()
  | (peer, payload) :: rest => do
    match ← Link.send peer (frame step payload) with
    | .error e => return .error e
    | .ok () => answer step rest

def tell (step : Step) (e : GroupError) : List Nat → Dialogue Link Unit
  | [] => return ()
  | peer :: rest => do
    match ← Link.send peer (frame step (.failure e.message)) with
    | .ok () => pure ()
    | .error e => Link.log .warn s!"Could not report failure to rank {peer}: {e.message}"
    tell step e rest

def peers (size : Nat) : List Nat := List.range' 1 (size - 1)

def abandon (step : Step) (size : Nat) (e : GroupError) :
    Dialogue Link (Except GroupError Payload) := do
  Link.log .warn s!"{step.text} failed on root: {e.message}"
  tell step e (peers size)
  return .error e

/-- The replies, one for each rank of the group. -/
def combined (size : Nat) (combine : Combine) (contributions : Except GroupError (List Payload)) :
    Except GroupError (List Payload) := do
  match combine (← contributions) with
  | .error e => throw (.collective e)
  | .ok replies =>
    if replies.length = size then return replies
    else throw (.collective (.replies replies.length size))

/-- Collects the contributions, combines them and answers, the highest rank first. -/
def lead (step : Step) (size : Nat) (contribution : Payload) (combine : Combine) :
    Dialogue Link (Except GroupError Payload) := do
  let received ← collect step (peers size)
  match combined size combine ((gathered received).map (contribution :: ·)) with
  | .error e => abandon step size e
  | .ok replies =>
    match ← answer step ((peers size).zip (replies.drop 1)).reverse with
    | .error e => return .error e
    | .ok () => return .ok (replies.headD .empty)

end Exchange

def exchange (m : Member) (operation : Operation) (contribution : Payload)
    (combine : Exchange.Combine) : Collective Payload := do
  let sequence := (← get) + 1
  set sequence
  let step : Step := ⟨operation, sequence⟩
  Collective.log .trace s!"rank {m.rank} enters {step.text}"
  Collective.attempt <|
    if m.isRoot then Exchange.lead step m.size contribution combine
    else Exchange.follow step contribution

namespace Collective

/-! ## Checks -/

/-- Refuses a rank outside the group, before anything is sent. -/
def checkRank (m : Member) (rank : Nat) : Collective Unit :=
  if rank < m.size then pure () else throw (.invalidRank rank m.size)

def words : Payload → Except CombineError (List Int64)
  | .words ws => .ok ws
  | other => .error (.notWords other.kind)

def expectWords (reply : Payload) : Collective (List Int64) :=
  match words reply with
  | .ok ws => pure ws
  | .error e => throw (.collective e)

def first (cause : CombineError) : List Int64 → Collective Int64
  | w :: _ => pure w
  | [] => throw (.collective cause)

/-! ## Combining -/

/-- Contributions of one kind and one length, in the order of the ranks. -/
def joined {α : Type} (values? : Payload → Option (List α)) (contributions : List Payload) :
    Except CombineError (List α) :=
  go none 0 contributions
where
  go (length : Option Nat) (rank : Nat) : List Payload → Except CombineError (List α)
    | [] => .ok []
    | payload :: rest =>
      match values? payload with
      | none => .error (.contributed rank payload.kind)
      | some vs =>
        let expected := length.getD vs.length
        if vs.length = expected then (go (some expected) (rank + 1) rest).map (vs ++ ·)
        else .error (.uneven rank vs.length expected)

def wordValues? : Payload → Option (List Int64)
  | .words ws => some ws
  | _ => none

def realValues? : Payload → Option (List Double)
  | .reals xs => some xs
  | _ => none

/-- One reply for the target and nothing for the others. -/
def onlyFor (size target : Nat) (payload : Payload) : List Payload :=
  (List.replicate size Payload.empty).set target payload

def singles : Nat → List Payload → Except CombineError (List Int64)
  | _, [] => .ok []
  | rank, .words [w] :: rest => (singles (rank + 1) rest).map (w :: ·)
  | rank, payload :: _ => .error (.contributed rank payload.kind)

def minWord : Int64 := Int64.minValue

def maxWord : Int64 := Int64.maxValue

/-- The sum, cut to the range of words. -/
def saturatingAdd (a b : Int64) : Int64 :=
  Int64.ofInt (max minWord.toInt (min maxWord.toInt (a.toInt + b.toInt)))

def lesser (a b : Int64) : Int64 := if b.toInt < a.toInt then b else a

def greater (a b : Int64) : Int64 := if a.toInt < b.toInt then b else a

/-- The least word, the greatest, or the sum from zero. -/
def reduced (operation : Operation) : List Int64 → Except CombineError Int64
  | [] => if operation = .reduceSum then .ok 0 else .error .emptyGroup
  | w :: ws => match operation with
    | .reduceMin => .ok (ws.foldl lesser w)
    | .reduceMax => .ok (ws.foldl greater w)
    | _ => .ok ((w :: ws).foldl saturatingAdd 0)

/-! ## Operations -/

def barrier (m : Member) : Collective Unit := do
  let _ ← exchange m .barrier .empty fun _ => .ok (List.replicate m.size .empty)

/-- The words of one rank, on every rank. -/
def broadcast (m : Member) (values : List Int64) (source : Nat) : Collective (List Int64) := do
  checkRank m source
  let reply ← exchange m .broadcast (if m.rank = source then .words values else .empty)
    fun contributions => match contributions.getD source .empty with
      | .words ws => .ok (List.replicate m.size (.words ws))
      | other => .error (.source source other.kind)
  expectWords reply

def broadcastValue (m : Member) (value : Int64) (source : Nat) : Collective Int64 := do
  first .noBroadcastValue (← broadcast m [value] source)

/-- The words of all ranks in their order, on the target. -/
def gather (m : Member) (values : List Int64) (target : Nat) :
    Collective (Option (List Int64)) := do
  checkRank m target
  let reply ← exchange m .gather (.words values) fun contributions =>
    (joined wordValues? contributions).map fun ws => onlyFor m.size target (.words ws)
  if m.rank = target then return some (← expectWords reply) else return none

/-- The numbers of all ranks in their order, on the target. -/
def gatherReals (m : Member) (values : List Double) (target : Nat) :
    Collective (Option (List Double)) := do
  checkRank m target
  let reply ← exchange m .gather (.reals values) fun contributions =>
    (joined realValues? contributions).map fun xs => onlyFor m.size target (.reals xs)
  match reply with
  | .reals xs => if m.rank = target then return some xs else unexpected reply
  | .empty => if m.rank = target then unexpected reply else return none
  | _ => unexpected reply
where
  unexpected (reply : Payload) : Collective (Option (List Double)) :=
    throw (.collective (.unexpectedReply reply.kind))

/-- The words of all ranks in their order, on every rank. -/
def allGather (m : Member) (values : List Int64) : Collective (List Int64) := do
  let reply ← exchange m .allGather (.words values) fun contributions =>
    (joined wordValues? contributions).map fun ws => List.replicate m.size (.words ws)
  expectWords reply

/-- One word made of all, on the target. Every other rank has its own back. -/
def reduce (m : Member) (operation : Operation) (value : Int64) (target : Nat) :
    Collective Int64 := do
  checkRank m target
  let reply ← exchange m operation (.words [value]) fun contributions => do
    return onlyFor m.size target (.words [← reduced operation (← singles 0 contributions)])
  if m.rank = target then first .noReducedValue (← expectWords reply) else return value

def reduceMin (m : Member) (value : Int64) (target : Nat) : Collective Int64 :=
  reduce m .reduceMin value target

def reduceMax (m : Member) (value : Int64) (target : Nat) : Collective Int64 :=
  reduce m .reduceMax value target

def reduceSum (m : Member) (value : Int64) (target : Nat) : Collective Int64 :=
  reduce m .reduceSum value target

/-! ## Identifiers -/

def broadcastIdentifier (m : Member) (id : Option Identifier) (source : Nat) :
    Collective (Option Identifier) := do
  match Identifier.ofWords (← broadcast m (Identifier.toWords id) source) with
  | id :: _ => return id
  | [] => throw (.collective .noIdentifier)

def gatherIdentifiers (m : Member) (id : Option Identifier) (target : Nat) :
    Collective (Option (List (Option Identifier))) := do
  return (← gather m (Identifier.toWords id) target).map Identifier.ofWords

def allGatherIdentifiers (m : Member) (id : Option Identifier) :
    Collective (List (Option Identifier)) := do
  return Identifier.ofWords (← allGather m (Identifier.toWords id))

end Collective

end Lagmeter
