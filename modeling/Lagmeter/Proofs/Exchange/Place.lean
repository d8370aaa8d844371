import Lagmeter.Group.Collective

/-!
# Places in an exchange

A rank that takes part in an exchange is at one of a few places, and what is left of its dialogue
follows from its place. `Moves` lists every call that is made at a place and where each answer
leads. `Place.inversion` says that the dialogue does nothing else.
-/

namespace Lagmeter

/-- What a rank brings to one exchange. -/
structure Offer where
  operation : Operation
  contribution : Payload
  combine : Exchange.Combine

namespace Offer

def step (ρ : Offer) (k : Nat) : Step := ⟨ρ.operation, k⟩

/-- The frame that carries the contribution in exchange number `k`. -/
def frame (ρ : Offer) (k : Nat) : Frame := Exchange.frame (ρ.step k) ρ.contribution

/-- The exchange of the offer, which comes after number `sequence`. -/
def dialogue (ρ : Offer) (m : Member) (sequence : Nat) :
    Dialogue Link (Except GroupError Payload × Nat) :=
  (exchange m ρ.operation ρ.contribution ρ.combine).start sequence

end Offer

namespace Exchange

inductive Place where
  | entering
  | sending
  | awaiting
  | collecting (received : List (Except GroupError Payload)) (peer : Nat) (rest : List Nat)
  | answering (replies : List Payload) (peer : Nat) (payload : Payload) (rest : List (Nat × Payload))
  | abandoning (e : GroupError)
  | telling (e : GroupError) (peer : Nat) (rest : List Nat)
  /-- A rank could not be told of the failure. -/
  | noting (e : GroupError) (event : Event) (rest : List Nat)
  | finished (result : Except GroupError Payload)

/-! ## The places of the root, one after the other -/

namespace Place

def answerTo (replies : List Payload) : List (Nat × Payload) → Place
  | [] => .finished (.ok (replies.headD .empty))
  | (peer, payload) :: rest => .answering replies peer payload rest

def tellTo (e : GroupError) : List Nat → Place
  | [] => .finished (.error e)
  | peer :: rest => .telling e peer rest

/-- The replies that go out, the highest rank first. -/
def outgoing (size : Nat) (replies : List Payload) : List (Nat × Payload) :=
  ((peers size).zip (replies.drop 1)).reverse

/-- What the root makes of all that it received. -/
def outcome (size : Nat) (ρ : Offer) (received : List (Except GroupError Payload)) :
    Except GroupError (List Payload) :=
  combined size ρ.combine ((gathered received).map (ρ.contribution :: ·))

def decide (size : Nat) (ρ : Offer) (received : List (Except GroupError Payload)) : Place :=
  match outcome size ρ received with
  | .error e => .abandoning e
  | .ok replies => answerTo replies (outgoing size replies)

def collectFrom (size : Nat) (ρ : Offer) (received : List (Except GroupError Payload)) :
    List Nat → Place
  | [] => decide size ρ received
  | peer :: rest => .collecting received peer rest

end Place

/-! ## What is left to do -/

def closing (size k : Nat) (ρ : Offer) (received : List (Except GroupError Payload)) :
    Dialogue Link (Except GroupError Payload) :=
  match Place.outcome size ρ received with
  | .error e => abandon (ρ.step k) size e
  | .ok replies => do
    match ← answer (ρ.step k) (Place.outgoing size replies) with
    | .error e => return .error e
    | .ok () => return .ok (replies.headD .empty)

def finishTelling (k : Nat) (ρ : Offer) (e : GroupError) (rest : List Nat) :
    Dialogue Link (Except GroupError Payload) :=
  (tell (ρ.step k) e rest).bind fun _ => .done (.error e)

def finishAnswering (k : Nat) (ρ : Offer) (replies : List Payload) (rest : List (Nat × Payload)) :
    Dialogue Link (Except GroupError Payload) :=
  (answer (ρ.step k) rest).bind fun
    | .error e => .done (.error e)
    | .ok () => .done (.ok (replies.headD .empty))

def entry (m : Member) (k : Nat) (ρ : Offer) : Event :=
  ⟨.trace, s!"rank {m.rank} enters {(ρ.step k).text}"⟩

def abandonment (k : Nat) (ρ : Offer) (e : GroupError) : Event :=
  ⟨.warn, s!"{(ρ.step k).text} failed on root: {e.message}"⟩

/-- The meaning of what a peer's frame brings. -/
def replied (k : Nat) (ρ : Offer) (f : Frame) : Except GroupError Payload :=
  (checked 0 (ρ.step k) f).bind opened

/-- What is left of the dialogue of exchange number `k` at a place. -/
def Place.rest (m : Member) (k : Nat) (ρ : Offer) : Place → Dialogue Link (Except GroupError Payload)
  | .entering => .ask (LinkCall.log (entry m k ρ)) fun _ =>
    if m.isRoot then lead (ρ.step k) m.size ρ.contribution ρ.combine
    else follow (ρ.step k) ρ.contribution
  | .sending => follow (ρ.step k) ρ.contribution
  | .awaiting => .ask (LinkCall.receive 0) fun a => .done (Except.bind a (replied k ρ))
  | .collecting received peer rest =>
    (collect (ρ.step k) (peer :: rest)).bind fun more => closing m.size k ρ (received ++ more)
  | .answering replies peer payload rest => finishAnswering k ρ replies ((peer, payload) :: rest)
  | .abandoning e => abandon (ρ.step k) m.size e
  | .telling e peer rest => finishTelling k ρ e (peer :: rest)
  | .noting e event rest => .ask (LinkCall.log event) fun _ => finishTelling k ρ e rest
  | .finished result => .done result

/-- The whole of what is left, with the number of the exchange. -/
def Place.dialogue (m : Member) (k : Nat) (ρ : Offer) (p : Place) :
    Dialogue Link (Except GroupError Payload × Nat) :=
  (p.rest m k ρ).bind fun r => .done (r, k)

/-! ## Moves -/

/-- The calls that are made in exchange number `k`, and where their answers lead. -/
inductive Moves (m : Member) (k : Nat) (ρ : Offer) :
    Place → (call : LinkCall) → call.Answer → Place → Prop where
  | lead (h : m.isRoot = true) :
    Moves m k ρ .entering (.log (entry m k ρ)) () (.collectFrom m.size ρ [] (peers m.size))
  | follow (h : m.isRoot = false) : Moves m k ρ .entering (.log (entry m k ρ)) () .sending
  | contribute : Moves m k ρ .sending (.send 0 (ρ.frame k)) (.ok ()) .awaiting
  | unheard (e : GroupError) :
    Moves m k ρ .sending (.send 0 (ρ.frame k)) (.error e) (.finished (.error e))
  | reply (a : Except GroupError Frame) :
    Moves m k ρ .awaiting (.receive 0) a (.finished (Except.bind a (replied k ρ)))
  | collect (received : List (Except GroupError Payload)) (peer : Nat) (rest : List Nat)
      (a : Except GroupError Frame) :
    Moves m k ρ (.collecting received peer rest) (.receive peer) a
      (.collectFrom m.size ρ (received ++ [Except.bind a (checked peer (ρ.step k))]) rest)
  | answer (replies : List Payload) (peer : Nat) (payload : Payload) (rest : List (Nat × Payload)) :
    Moves m k ρ (.answering replies peer payload rest)
      (.send peer (Exchange.frame (ρ.step k) payload)) (.ok ()) (.answerTo replies rest)
  | unanswered (replies : List Payload) (peer : Nat) (payload : Payload)
      (rest : List (Nat × Payload)) (e : GroupError) :
    Moves m k ρ (.answering replies peer payload rest)
      (.send peer (Exchange.frame (ρ.step k) payload)) (.error e) (.finished (.error e))
  | abandon (e : GroupError) :
    Moves m k ρ (.abandoning e) (.log (abandonment k ρ e)) () (.tellTo e (peers m.size))
  | tell (e : GroupError) (peer : Nat) (rest : List Nat) :
    Moves m k ρ (.telling e peer rest)
      (.send peer (Exchange.frame (ρ.step k) (.failure e.message))) (.ok ()) (.tellTo e rest)
  | untold (e cause : GroupError) (peer : Nat) (rest : List Nat) (event : Event) :
    Moves m k ρ (.telling e peer rest)
      (.send peer (Exchange.frame (ρ.step k) (.failure e.message))) (.error cause)
      (.noting e event rest)
  | note (e : GroupError) (event : Event) (rest : List Nat) :
    Moves m k ρ (.noting e event rest) (.log event) () (.tellTo e rest)

variable {m : Member} {k : Nat} {ρ : Offer}

theorem Moves.of_receive {p p' : Place} {peer : Nat} {a : Except GroupError Frame}
    (h : Moves m k ρ p (.receive peer) a p') :
    (p = .awaiting ∧ peer = 0) ∨ ∃ received rest, p = .collecting received peer rest := by
  cases h with
  | reply _ => exact .inl ⟨rfl, rfl⟩
  | collect received _ rest _ => exact .inr ⟨received, rest, rfl⟩

/-! ## The dialogue follows the moves -/

theorem rest_answerTo (replies : List Payload) (rest : List (Nat × Payload)) :
    (Place.answerTo replies rest).rest m k ρ = finishAnswering k ρ replies rest := by
  cases rest with
  | nil => rfl
  | cons _ _ => rfl

theorem rest_tellTo (e : GroupError) (rest : List Nat) :
    (Place.tellTo e rest).rest m k ρ = finishTelling k ρ e rest := by
  cases rest with
  | nil => rfl
  | cons _ _ => rfl

theorem rest_decide (received : List (Except GroupError Payload)) :
    (Place.decide m.size ρ received).rest m k ρ = closing m.size k ρ received := by
  unfold Place.decide closing
  split
  · rfl
  · exact rest_answerTo _ _

theorem rest_collectFrom (received : List (Except GroupError Payload)) (rest : List Nat) :
    (Place.collectFrom m.size ρ received rest).rest m k ρ =
      (collect (ρ.step k) rest).bind fun more => closing m.size k ρ (received ++ more) := by
  cases rest with
  | nil =>
    show _ = closing m.size k ρ (received ++ [])
    rw [List.append_nil]
    exact rest_decide received
  | cons _ _ => rfl

theorem lead_eq : lead (ρ.step k) m.size ρ.contribution ρ.combine =
    (Place.collectFrom m.size ρ [] (peers m.size)).rest m k ρ := by
  rw [rest_collectFrom]
  rfl

theorem collect_cons (received : List (Except GroupError Payload)) (peer : Nat) (rest : List Nat) :
    (Place.collecting received peer rest).rest m k ρ = .ask (LinkCall.receive peer) fun a =>
      (Place.collectFrom m.size ρ (received ++ [Except.bind a (checked peer (ρ.step k))]) rest).rest
        m k ρ := by
  simp only [rest_collectFrom, List.append_assoc, List.singleton_append]
  simp only [Place.rest, collect, bind, Link.receive, Dialogue.bind, Dialogue.bind_assoc, pure]

theorem reply_eq : (do
      match ← Link.receive 0 with
      | .error e => return .error e
      | .ok f => return (checked 0 (ρ.step k) f).bind opened) = Place.awaiting.rest m k ρ := by
  refine congrArg (Dialogue.ask (I := Link) (LinkCall.receive 0)) (funext fun a => ?_)
  cases a with
  | error e => rfl
  | ok f => rfl

/-- A place that is not the end makes one call, and every answer leads where `Moves` says. -/
theorem Place.inversion (p : Place) : (∃ r, p = .finished r) ∨ ∃ call go, p.rest m k ρ = .ask call go ∧
    ∀ a, ∃ p', Moves m k ρ p call a p' ∧ go a = p'.rest m k ρ := by
  cases p with
  | finished r => exact .inl ⟨r, rfl⟩
  | entering =>
    refine .inr ⟨_, _, rfl, fun a => ?_⟩
    cases h : m.isRoot with
    | true => exact ⟨_, .lead h, lead_eq⟩
    | false => exact ⟨_, .follow h, rfl⟩
  | sending =>
    refine .inr ⟨_, _, rfl, fun a => ?_⟩
    cases a with
    | error e => exact ⟨_, .unheard e, rfl⟩
    | ok u =>
      exact ⟨_, .contribute, reply_eq⟩
  | awaiting => exact .inr ⟨_, _, rfl, fun a => ⟨_, .reply a, rfl⟩⟩
  | collecting received peer rest =>
    exact .inr ⟨_, _, collect_cons _ _ _, fun a => ⟨_, .collect _ _ _ a, rfl⟩⟩
  | answering replies peer payload rest =>
    refine .inr ⟨_, _, rfl, fun a => ?_⟩
    cases a with
    | ok u => exact ⟨_, .answer _ _ _ _, (rest_answerTo _ _).symm⟩
    | error e => exact ⟨_, .unanswered _ _ _ _ e, rfl⟩
  | abandoning e => exact .inr ⟨_, _, rfl, fun a => ⟨_, .abandon e, (rest_tellTo _ _).symm⟩⟩
  | telling e peer rest =>
    refine .inr ⟨_, _, rfl, fun a => ?_⟩
    cases a with
    | ok u => exact ⟨_, .tell _ _ _, (rest_tellTo _ _).symm⟩
    | error cause => exact ⟨_, .untold e cause peer rest _, rfl⟩
  | noting e event rest => exact .inr ⟨_, _, rfl, fun a => ⟨_, .note _ _ _, (rest_tellTo _ _).symm⟩⟩

theorem Place.dialogue_ask {p : Place} {call : LinkCall}
    {go : call.Answer → Dialogue Link (Except GroupError Payload × Nat)}
    (h : p.dialogue m k ρ = .ask call go) (a : call.Answer) :
    ∃ p', Moves m k ρ p call a p' ∧ go a = p'.dialogue m k ρ := by
  rcases p.inversion (m := m) (k := k) (ρ := ρ) with ⟨r, rfl⟩ | ⟨call', go', hrest, hmoves⟩
  · cases h
  · rw [Place.dialogue, hrest] at h
    cases h
    obtain ⟨p', hp', hgo⟩ := hmoves a
    exact ⟨p', hp', congrArg (Dialogue.bind · fun r => .done (r, k)) hgo⟩

theorem Place.dialogue_done {p : Place} {x : Except GroupError Payload × Nat}
    (h : p.dialogue m k ρ = .done x) : ∃ r, p = .finished r ∧ x = (r, k) := by
  rcases p.inversion (m := m) (k := k) (ρ := ρ) with ⟨r, rfl⟩ | ⟨call, go, hrest, -⟩
  · cases h
    exact ⟨r, rfl, rfl⟩
  · rw [Place.dialogue, hrest] at h
    cases h

theorem dialogue_entering (sequence : Nat) :
    Place.entering.dialogue m (sequence + 1) ρ = ρ.dialogue m sequence := rfl

end Exchange

end Lagmeter
