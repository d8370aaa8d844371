import Lagmeter.Scene.Basic

/-!
# Ranks at work

Every rank of a scene follows its program, and while the program waits for a phase of the node, the
node's own. Beside the ranks there are timers.
-/

namespace Lagmeter

inductive RankTask (α : Type) where
  /-- The program has the turn. Its call was made first at the moment `asked`. -/
  | talking (node : Node) (program : Dialogue Site α) (asked : Option Nat)
  /-- The node has the turn: how it was before this round, and the rest of the round. The program
  goes on after the phase. -/
  | working (phase : NodePhase) (node : Node) (round : Dialogue Work (Round Node))
    (asked : Option Nat) (next : Except Fault Unit → Dialogue Site α)

inductive Task (α : Type) where
  | rank (task : RankTask α)
  | timer (timer : Timer)

namespace RankTask

variable {σ α : Type}

/-- What the program of a rank gave when it is over. -/
def result? : RankTask α → Option α
  | .talking _ (.done a) _ => some a
  | _ => none

/-- The node of a rank, as it was before a round that is not over. -/
def node : RankTask α → Node
  | .talking node _ _ => node
  | .working _ node _ _ _ => node

/-- A phase of the node that is over. -/
def finished (s : Scene σ) (rank : Nat) (phase : NodePhase) : Scene σ :=
  if phase = .setup then { s with setups := s.setups.push rank } else s

def workTurn [Backend σ] (rank now : Nat) (s : Scene σ) (phase : NodePhase) (node : Node)
    (round : Dialogue Work (Round Node)) (asked : Option Nat)
    (next : Except Fault Unit → Dialogue Site α) : Turn (Task α) (Scene σ) :=
  match round with
  | .done (.again node) =>
    .act (.rank (.working phase node (node.resume phase) none next)) s [] []
  | .done (.over node result) =>
    .act (.rank (.talking node (next result) none)) (finished s rank phase) [] []
  | .ask call go =>
    let same := .rank (.working phase node (.ask call go) (some (asked.getD now)) next)
    match s.work rank now asked call with
    | .answered a s raised timers =>
      .act (.rank (.working phase node (go a) none next)) s raised (timers.map .timer)
    | .further s => .act same s [] []
    | .halt wait => .halt same s wait

/-- The next action of a program that calls its clocks, its watcher or its store. -/
def directTurn [Backend σ] (rank now : Nat) (s : Scene σ) (node : Node) (asked : Option Nat)
    (call : WorkCall) (next : call.Answer → Dialogue Site α) : Turn (Task α) (Scene σ) :=
  let same := .rank (.talking node (.ask (SiteCall.work call) next) (some (asked.getD now)))
  match s.work rank now asked call with
  | .answered a s raised timers => .act (.rank (.talking node (next a) none)) s raised (timers.map .timer)
  | .further s => .act same s [] []
  | .halt wait => .halt same s wait

/-- The next action of a program that calls its link. -/
def linkTurn (rank : Nat) (s : Scene σ) (node : Node) (call : LinkCall)
    (next : call.Answer → Dialogue Site α) : Turn (Task α) (Scene σ) :=
  match call, next with
  | .log e, next => .act (.rank (.talking node (next ()) none)) (s.log rank [e]) [] []
  | call, next => match s.mesh.perform rank call with
    | .answered a mesh raised => .act (.rank (.talking node (next a) none)) { s with mesh } raised []
    | .wait signal =>
      .halt (.rank (.talking node (.ask (SiteCall.seat (.link call)) next) none)) s
        { signals := [signal] }

/-- The next action of a program. Most calls are answered at once. -/
def talkTurn [Backend σ] (rank now : Nat) (s : Scene σ) (node : Node) (program : Dialogue Site α)
    (asked : Option Nat) : Turn (Task α) (Scene σ) :=
  let goOn (node : Node) (program : Dialogue Site α) (s : Scene σ) : Turn (Task α) (Scene σ) :=
    .act (.rank (.talking node program none)) s [] []
  match program with
  | .done _ => .finish
  | .ask (.work call) next => directTurn rank now s node asked call next
  | .ask (.seat (.link call)) next => linkTurn rank s node call next
  | .ask (.seat (.phase phase)) next =>
    .act (.rank (.working phase node (node.start phase) none next)) s [] []
  | .ask (.seat (.report j)) next =>
    let filed := node.report (s.watcher rank).latch.changes j s.files (.ofNanos s.wall)
    goOn node (next filed.result) ({ s with files := filed.files }.log rank filed.events)
  | .ask (.seat .role) next => goOn node (next node.role) s
  | .ask (.seat .outcome) next => goOn node (next node.outcome) s
  | .ask (.drawKeys blocks) next =>
    let (keys, draws) := blocks.drawKeys s.draws
    goOn node (next keys) { s with draws }
  | .ask (.openStructure name) next =>
    let (result, store) := Backend.openStructure rank name s.store
    goOn node (next result) { s with store }
  | .ask .subscribe next =>
    let (listener, store) := Backend.subscribe rank s.store
    goOn node (next listener) { s with store }
  | .ask (.play node) next => goOn node (next ()) s
  | .ask (.findLogs j name) next => goOn node (next (j.paths s.files name)) s
  | .ask (.readLog path) next => goOn node (next (Journal.readLog s.files path)) s
  | .ask (.writeReport report path) next =>
    let written := report.write s.files path
    goOn node (next written.result) ({ s with files := written.files }.log rank written.events)

def turn [Backend σ] (rank now : Nat) (t : RankTask α) (s : Scene σ) : Turn (Task α) (Scene σ) :=
  match t with
  | .talking node program asked => talkTurn rank now s node program asked
  | .working phase node round asked next => workTurn rank now s phase node round asked next

end RankTask

namespace Task

variable {σ α : Type}

/-- A timer waits for its moment and tells its audience. -/
def timerTurn (now : Nat) (t : Timer) (s : Scene σ) : Turn (Task α) (Scene σ) :=
  if now < t.due then .halt (.timer t) s { deadline := some t.due }
  else if t.audience = [] then .finish
  else .act (.timer { t with audience := [] }) (s.tell t.audience) (t.audience.map Signal.change) []

def turn [Backend σ] (number now : Nat) (t : Task α) (s : Scene σ) : Turn (Task α) (Scene σ) :=
  match t with
  | .rank t => t.turn number now s
  | .timer t => timerTurn now t s

def system [Backend σ] : System (Task α) (Scene σ) := ⟨turn⟩

def result? : Task α → Option α
  | .rank t => t.result?
  | .timer _ => none

end Task

namespace Scene

variable {σ α : Type}

/-- Runs the programs of all ranks as far as they go. -/
def run [Backend σ] (s : Scene σ) (fuel : Nat) (ranks : List (Node × Dialogue Site α)) :
    Schedule (Task α) (Scene σ) :=
  (Schedule.start (ranks.map fun (node, program) => .rank (.talking node program none)) s).run
    Task.system fuel

end Scene

end Lagmeter
