import Lagmeter.Proofs.Exchange.Place

/-!
# Requests

A request is one collective operation together with what a rank brings to it. Whatever the
operation, a rank checks the rank that it names, takes part in one exchange and reads the reply.
-/

namespace Lagmeter

/-- How one word is made of many. -/
inductive Reduction where
  | least
  | greatest
  | sum
  deriving DecidableEq

def Reduction.operation : Reduction → Operation
  | .least => .reduceMin
  | .greatest => .reduceMax
  | .sum => .reduceSum

inductive Request where
  | barrier
  | broadcast (values : List Int64) (source : Nat)
  | broadcastValue (value : Int64) (source : Nat)
  | gather (values : List Int64) (target : Nat)
  | gatherReals (values : List Double) (target : Nat)
  | allGather (values : List Int64)
  | reduce (how : Reduction) (value : Int64) (target : Nat)
  | broadcastIdentifier (id : Option Identifier) (source : Nat)
  | gatherIdentifiers (id : Option Identifier) (target : Nat)
  | allGatherIdentifiers (id : Option Identifier)

inductive Yield where
  | nothing
  | word (w : Int64)
  | words (ws : List Int64)
  | gathered (ws : Option (List Int64))
  | gatheredReals (xs : Option (List Double))
  | identifier (id : Option Identifier)
  | gatheredIdentifiers (ids : Option (List (Option Identifier)))
  | identifiers (ids : List (Option Identifier))
  deriving DecidableEq

namespace Request

def perform (m : Member) : Request → Collective Yield
  | .barrier => do
    Collective.barrier m
    return .nothing
  | .broadcast values source => Yield.words <$> Collective.broadcast m values source
  | .broadcastValue value source => Yield.word <$> Collective.broadcastValue m value source
  | .gather values target => Yield.gathered <$> Collective.gather m values target
  | .gatherReals values target => Yield.gatheredReals <$> Collective.gatherReals m values target
  | .allGather values => Yield.words <$> Collective.allGather m values
  | .reduce .least value target => Yield.word <$> Collective.reduceMin m value target
  | .reduce .greatest value target => Yield.word <$> Collective.reduceMax m value target
  | .reduce .sum value target => Yield.word <$> Collective.reduceSum m value target
  | .broadcastIdentifier id source =>
    Yield.identifier <$> Collective.broadcastIdentifier m id source
  | .gatherIdentifiers id target =>
    Yield.gatheredIdentifiers <$> Collective.gatherIdentifiers m id target
  | .allGatherIdentifiers id => Yield.identifiers <$> Collective.allGatherIdentifiers m id

end Request

/-! ## Offers -/

namespace Offer

def meet (m : Member) : Offer :=
  ⟨.barrier, .empty, fun _ => .ok (List.replicate m.size .empty)⟩

/-- The words of the source for everybody. -/
def spread (m : Member) (values : List Int64) (source : Nat) : Offer :=
  ⟨.broadcast, if m.rank = source then .words values else .empty,
    fun contributions => match contributions.getD source .empty with
      | .words ws => .ok (List.replicate m.size (.words ws))
      | other => .error (.source source other.kind)⟩

def hand (m : Member) (values : List Int64) (target : Nat) : Offer :=
  ⟨.gather, .words values, fun contributions =>
    (Collective.joined Collective.wordValues? contributions).map fun ws =>
      Collective.onlyFor m.size target (.words ws)⟩

def handReals (m : Member) (values : List Double) (target : Nat) : Offer :=
  ⟨.gather, .reals values, fun contributions =>
    (Collective.joined Collective.realValues? contributions).map fun xs =>
      Collective.onlyFor m.size target (.reals xs)⟩

def share (m : Member) (values : List Int64) : Offer :=
  ⟨.allGather, .words values, fun contributions =>
    (Collective.joined Collective.wordValues? contributions).map fun ws =>
      List.replicate m.size (.words ws)⟩

/-- One word made of all for the target. -/
def reduce (m : Member) (how : Reduction) (value : Int64) (target : Nat) : Offer :=
  ⟨how.operation, .words [value], fun contributions => do
    return Collective.onlyFor m.size target
      (.words [← Collective.reduced how.operation (← Collective.singles 0 contributions)])⟩

end Offer

namespace Request

def offer (m : Member) : Request → Offer
  | .barrier => .meet m
  | .broadcast values source => .spread m values source
  | .broadcastValue value source => .spread m [value] source
  | .gather values target => .hand m values target
  | .gatherReals values target => .handReals m values target
  | .allGather values => .share m values
  | .reduce how value target => .reduce m how value target
  | .broadcastIdentifier id source => .spread m (Identifier.toWords id) source
  | .gatherIdentifiers id target => .hand m (Identifier.toWords id) target
  | .allGatherIdentifiers id => .share m (Identifier.toWords id)

def rank? : Request → Option Nat
  | .barrier | .allGather _ | .allGatherIdentifiers _ => none
  | .broadcast _ rank | .broadcastValue _ rank | .gather _ rank | .gatherReals _ rank
  | .reduce _ _ rank | .broadcastIdentifier _ rank | .gatherIdentifiers _ rank => some rank

/-- A rank outside the group is refused before anything is sent. -/
def check (m : Member) (q : Request) : Except GroupError Unit :=
  match q.rank? with
  | some rank => if rank < m.size then .ok () else .error (.invalidRank rank m.size)
  | none => .ok ()

end Request

/-! ## Reading replies -/

namespace Reply

def words (reply : Payload) : Except GroupError (List Int64) :=
  match reply with
  | .words ws => .ok ws
  | other => .error (.collective (.notWords other.kind))

def firstOf (cause : CombineError) : List Int64 → Except GroupError Int64
  | w :: _ => .ok w
  | [] => .error (.collective cause)

def identifierOf (ws : List Int64) : Except GroupError (Option Identifier) :=
  match Identifier.ofWords ws with
  | id :: _ => .ok id
  | [] => .error (.collective .noIdentifier)

/-- Every rank but the target keeps its own word. -/
def reduced (m : Member) (value : Int64) (target : Nat) (reply : Payload) :
    Except GroupError Int64 :=
  if m.rank = target then (words reply).bind (firstOf .noReducedValue) else .ok value

/-- What only the target gets. -/
def gathered (m : Member) (target : Nat) (reply : Payload) :
    Except GroupError (Option (List Int64)) :=
  if m.rank = target then (words reply).map some else .ok none

def gatheredReals (m : Member) (target : Nat) :
    Payload → Except GroupError (Option (List Double))
  | .reals xs => if m.rank = target then .ok (some xs) else unexpected (.reals xs)
  | .empty => if m.rank = target then unexpected .empty else .ok none
  | reply => unexpected reply
where
  unexpected (reply : Payload) : Except GroupError (Option (List Double)) :=
    .error (.collective (.unexpectedReply reply.kind))

end Reply

/-- What a request makes of the reply. -/
def Request.finish (m : Member) : Request → Payload → Except GroupError Yield
  | .barrier, _ => .ok .nothing
  | .broadcast _ _, reply => (Reply.words reply).map .words
  | .broadcastValue _ _, reply => ((Reply.words reply).bind (Reply.firstOf .noBroadcastValue)).map .word
  | .gather _ target, reply => (Reply.gathered m target reply).map .gathered
  | .gatherReals _ target, reply => (Reply.gatheredReals m target reply).map .gatheredReals
  | .allGather _, reply => (Reply.words reply).map .words
  | .reduce _ value target, reply => (Reply.reduced m value target reply).map .word
  | .broadcastIdentifier _ _, reply =>
    ((Reply.words reply).bind Reply.identifierOf).map .identifier
  | .gatherIdentifiers _ target, reply =>
    ((Reply.gathered m target reply).bind fun ws => .ok (ws.map Identifier.ofWords)).map
      .gatheredIdentifiers
  | .allGatherIdentifiers _, reply =>
    ((Reply.words reply).bind fun ws => .ok (Identifier.ofWords ws)).map .identifiers

/-! ## Every request is one exchange -/

namespace Collective

variable {α β : Type}

theorem start_bind (c : Collective α) (f : α → Collective β) (k : Nat) :
    (c >>= f).start k = (c.start k).bind fun x => match x.1 with
      | .ok a => (f a).start x.2
      | .error e => .done (.error e, x.2) := by
  refine congrArg (Dialogue.bind (c.start k)) (funext fun x => ?_)
  obtain ⟨x, k'⟩ := x
  cases x with
  | ok a => rfl
  | error e => rfl

/-- A part that comes to one exchange, unless a check fails, and then reads the reply without
further calls. -/
def Reads (m : Member) (check : Except GroupError Unit) (ρ : Offer)
    (read : Payload → Except GroupError α) (c : Collective α) : Prop :=
  ∀ k, c.start k = match check with
    | .error e => .done (.error e, k)
    | .ok () => (ρ.dialogue m k).bind fun x => .done (x.1.bind read, x.2)

variable {m : Member} {check : Except GroupError Unit} {ρ : Offer}
  {read : Payload → Except GroupError α} {c : Collective α}

theorem reads_exchange (m : Member) (ρ : Offer) :
    Reads m (.ok ()) ρ .ok (exchange m ρ.operation ρ.contribution ρ.combine) := by
  intro k
  refine Eq.trans (Dialogue.bind_done _).symm (congrArg (Dialogue.bind _) (funext fun x => ?_))
  obtain ⟨x, k'⟩ := x
  cases x <;> rfl

theorem Reads.bind (h : Reads m check ρ read c) {f : α → Collective β}
    {g : α → Except GroupError β} (hf : ∀ a k, (f a).start k = .done (g a, k)) :
    Reads m check ρ (fun reply => (read reply).bind g) (c >>= f) := by
  intro k
  rw [start_bind, h k]
  cases check with
  | error e => rfl
  | ok _ =>
    simp only [Dialogue.bind_assoc, Dialogue.bind]
    refine congrArg (Dialogue.bind _) (funext fun x => ?_)
    obtain ⟨x, k'⟩ := x
    cases x with
    | error e => rfl
    | ok reply =>
      simp only [Except.bind]
      cases read reply with
      | error e => rfl
      | ok a => exact hf a k'

theorem Reads.map (h : Reads m check ρ read c) (f : α → β) :
    Reads m check ρ (fun reply => (read reply).map f) (f <$> c) := by
  rw [map_eq_pure_bind]
  have hbind : Reads m check ρ (fun reply => (read reply).bind fun a => .ok (f a))
      (c >>= fun a => pure (f a)) := h.bind fun _ _ => rfl
  intro k
  rw [hbind k]
  cases check with
  | error e => rfl
  | ok _ =>
    refine congrArg (Dialogue.bind _) (funext fun x => ?_)
    obtain ⟨x, k'⟩ := x
    cases x with
    | error e => rfl
    | ok reply => cases read reply <;> rfl

theorem Reads.checked (h : Reads m (.ok ()) ρ read c) (rank : Nat) :
    Reads m (if rank < m.size then .ok () else .error (.invalidRank rank m.size)) ρ read
      (checkRank m rank >>= fun _ => c) := by
  intro k
  rw [start_bind, checkRank]
  split
  · exact h k
  · rfl

theorem start_expectWords (reply : Payload) (k : Nat) :
    (expectWords reply).start k = .done (Reply.words reply, k) := by
  cases reply <;> rfl

theorem reads_broadcast (m : Member) (values : List Int64) (source : Nat) :
    Reads m (Request.check m (.broadcast values source)) (.spread m values source) Reply.words
      (broadcast m values source) :=
  ((reads_exchange m (.spread m values source)).bind start_expectWords).checked source

theorem reads_gather (m : Member) (values : List Int64) (target : Nat) :
    Reads m (Request.check m (.gather values target)) (.hand m values target)
      (Reply.gathered m target) (gather m values target) := by
  refine (Reads.bind (g := Reply.gathered m target) (reads_exchange m (.hand m values target))
    fun reply k => ?_).checked target
  by_cases htarget : m.rank = target
  · simp only [Reply.gathered, if_pos htarget]
    rw [start_bind, start_expectWords]
    cases Reply.words reply <;> rfl
  · simp only [Reply.gathered, if_neg htarget]
    rfl

theorem reads_gatherReals (m : Member) (values : List Double) (target : Nat) :
    Reads m (Request.check m (.gatherReals values target)) (.handReals m values target)
      (Reply.gatheredReals m target) (gatherReals m values target) := by
  refine (Reads.bind (g := Reply.gatheredReals m target)
    (reads_exchange m (.handReals m values target)) fun reply k => ?_).checked target
  cases reply with
  | reals xs =>
    simp only [Reply.gatheredReals]
    split <;> rfl
  | empty =>
    simp only [Reply.gatheredReals]
    split <;> rfl
  | words ws => rfl
  | failure reason => rfl

theorem reads_allGather (m : Member) (values : List Int64) :
    Reads m (.ok ()) (.share m values) Reply.words (allGather m values) :=
  (reads_exchange m (.share m values)).bind start_expectWords

theorem start_first (cause : CombineError) (ws : List Int64) (k : Nat) :
    (first cause ws).start k = .done (Reply.firstOf cause ws, k) := by
  cases ws <;> rfl

theorem reads_reduce (m : Member) (how : Reduction) (value : Int64) (target : Nat) :
    Reads m (Request.check m (.reduce how value target)) (.reduce m how value target)
      (Reply.reduced m value target) (reduce m how.operation value target) := by
  refine (Reads.bind (g := Reply.reduced m value target)
    (reads_exchange m (.reduce m how value target)) fun reply k => ?_).checked target
  by_cases htarget : m.rank = target
  · simp only [Reply.reduced, if_pos htarget]
    rw [start_bind, start_expectWords]
    cases Reply.words reply with
    | error e => rfl
    | ok ws => exact start_first _ ws k
  · simp only [Reply.reduced, if_neg htarget]
    rfl

theorem reads_broadcastIdentifier (m : Member) (id : Option Identifier) (source : Nat) :
    Reads m (Request.check m (.broadcastIdentifier id source))
      (.spread m (Identifier.toWords id) source)
      (fun reply => (Reply.words reply).bind Reply.identifierOf)
      (broadcastIdentifier m id source) := by
  refine (reads_broadcast m (Identifier.toWords id) source).bind fun ws k => ?_
  rw [Reply.identifierOf]
  cases Identifier.ofWords ws <;> rfl

end Collective

namespace Request

open Collective

/-- Every request is one exchange between a check and the reading of the reply. -/
theorem reads_perform (m : Member) (q : Request) :
    Reads m (q.check m) (q.offer m) (q.finish m) (q.perform m) := by
  cases q with
  | barrier =>
    exact Reads.bind (g := fun _ => .ok Yield.nothing)
      (Reads.bind (g := fun _ => .ok ()) (reads_exchange m (.meet m)) fun _ _ => rfl) fun _ _ => rfl
  | broadcast values source => exact (reads_broadcast m values source).map _
  | broadcastValue value source =>
    exact ((reads_broadcast m [value] source).bind (start_first _)).map _
  | gather values target => exact (reads_gather m values target).map _
  | gatherReals values target => exact (reads_gatherReals m values target).map _
  | allGather values => exact (reads_allGather m values).map _
  | reduce how value target =>
    have hreads := (reads_reduce m how value target).map Yield.word
    cases how with
    | least => exact hreads
    | greatest => exact hreads
    | sum => exact hreads
  | broadcastIdentifier id source => exact (reads_broadcastIdentifier m id source).map _
  | gatherIdentifiers id target =>
    exact ((reads_gather m (Identifier.toWords id) target).bind
      (g := fun ws => .ok (ws.map Identifier.ofWords)) fun _ _ => rfl).map _
  | allGatherIdentifiers id =>
    exact ((reads_allGather m (Identifier.toWords id)).bind
      (g := fun ws => .ok (Identifier.ofWords ws)) fun _ _ => rfl).map _

end Request

/-! ## Replies are no failures -/

/-- No reply reads as a failure. -/
def Readable (replies : List Payload) : Prop :=
  ∀ payload ∈ replies, ∀ reason, payload ≠ .failure reason

theorem readable_onlyFor {size target : Nat} {payload : Payload}
    (hpayload : ∀ reason, payload ≠ .failure reason) :
    Readable (Collective.onlyFor size target payload) := by
  intro reply hreply reason
  rcases List.mem_or_eq_of_mem_set hreply with hreply | rfl
  · rw [List.eq_of_mem_replicate hreply]
    exact nofun
  · exact hpayload reason

theorem readable_replicate {size : Nat} {payload : Payload}
    (hpayload : ∀ reason, payload ≠ .failure reason) : Readable (List.replicate size payload) := by
  intro reply hreply
  rw [List.eq_of_mem_replicate hreply]
  exact hpayload

theorem readable_map {β : Type} {x : Except CombineError β} {replies : List Payload}
    (make : β → List Payload) (hmake : ∀ b, Readable (make b)) (h : x.map make = .ok replies) :
    Readable replies := by
  cases x with
  | error e => cases h
  | ok b =>
    cases h
    exact hmake b

namespace Offer

def Plain (ρ : Offer) : Prop :=
  ∀ contributions replies, ρ.combine contributions = .ok replies → Readable replies

variable (m : Member)

theorem plain_spread (values : List Int64) (source : Nat) : (spread m values source).Plain := by
  intro contributions replies h
  simp only [spread] at h
  split at h
  · cases h
    exact readable_replicate nofun
  · cases h

theorem plain_hand (values : List Int64) (target : Nat) : (hand m values target).Plain :=
  fun _ _ => readable_map (fun ws => Collective.onlyFor m.size target (.words ws))
    fun _ => readable_onlyFor nofun

theorem plain_handReals (values : List Double) (target : Nat) :
    (handReals m values target).Plain :=
  fun _ _ => readable_map (fun xs => Collective.onlyFor m.size target (.reals xs))
    fun _ => readable_onlyFor nofun

theorem plain_share (values : List Int64) : (share m values).Plain :=
  fun _ _ => readable_map (fun ws => List.replicate m.size (.words ws))
    fun _ => readable_replicate nofun

theorem plain_reduce (how : Reduction) (value : Int64) (target : Nat) :
    (reduce m how value target).Plain := by
  intro contributions replies h
  simp only [reduce, bind, Except.bind] at h
  split at h
  · cases h
  · split at h
    · cases h
    · cases h
      exact readable_onlyFor nofun

end Offer

theorem Request.plain_offer (m : Member) (q : Request) : (q.offer m).Plain := by
  cases q with
  | barrier =>
    intro _ _ h
    cases h
    exact readable_replicate nofun
  | broadcast values source => exact Offer.plain_spread m values source
  | broadcastValue value source => exact Offer.plain_spread m [value] source
  | gather values target => exact Offer.plain_hand m values target
  | gatherReals values target => exact Offer.plain_handReals m values target
  | allGather values => exact Offer.plain_share m values
  | reduce how value target => exact Offer.plain_reduce m how value target
  | broadcastIdentifier id source => exact Offer.plain_spread m _ source
  | gatherIdentifiers id target => exact Offer.plain_hand m _ target
  | allGatherIdentifiers id => exact Offer.plain_share m _

end Lagmeter
