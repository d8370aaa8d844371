import Lagmeter.Proofs.Exchange.Agreement
import Mathlib.Data.List.Nodup

/-!
# Whom the root answers

Any receive and any send of the root may fail. Whatever fails, the root asks every peer once for its
contribution and sends to no peer twice. If it gives the exchange up, it tells every peer. If it
answers, it stops at the first answer that cannot be sent, and all lower ranks get nothing.
-/

namespace Lagmeter

/-! ## Runs -/

namespace Dialogue

variable {I : Interface} {α β : Type}

/-- A dialogue that got these answers to its calls, and what it came to. -/
inductive Run : Dialogue I α → List ((call : I.Call) × I.Answer call) → α → Prop where
  | done (a : α) : Run (.done a) [] a
  | ask (call : I.Call) (go : I.Answer call → Dialogue I α) (a : I.Answer call)
      {trace : List ((call : I.Call) × I.Answer call)} {result : α} (h : Run (go a) trace result) :
    Run (.ask call go) (⟨call, a⟩ :: trace) result

theorem Run.of_bind {d : Dialogue I α}
    {f : α → Dialogue I β} {trace : List ((call : I.Call) × I.Answer call)} {result : β}
    (h : (d.bind f).Run trace result) :
    ∃ before a after, d.Run before a ∧ (f a).Run after result ∧ trace = before ++ after := by
  induction d generalizing trace with
  | done a => exact ⟨[], a, trace, .done a, h, rfl⟩
  | ask call go ih =>
    cases h with
    | ask _ _ b h =>
      obtain ⟨before, a, after, hbefore, hafter, rfl⟩ := ih b h
      exact ⟨⟨call, b⟩ :: before, a, after, .ask call go b hbefore, hafter, rfl⟩

/-- The run in which every call gets the answer that `behave` has for it. -/
def play (behave : (call : I.Call) → I.Answer call) :
    Dialogue I α → List ((call : I.Call) × I.Answer call) × α
  | .done a => ([], a)
  | .ask call go =>
    let (trace, result) := (go (behave call)).play behave
    (⟨call, behave call⟩ :: trace, result)

theorem run_play (behave : (call : I.Call) → I.Answer call) (d : Dialogue I α) :
    d.Run (d.play behave).1 (d.play behave).2 := by
  induction d with
  | done a => exact .done a
  | ask call go ih => exact .ask call go (behave call) (ih (behave call))

end Dialogue

namespace Exchange

abbrev Trace := List ((call : LinkCall) × call.Answer)

abbrev Sent := Nat × Frame × Except GroupError Unit

/-- What a rank tried to send. -/
def sends : Trace → List Sent
  | [] => []
  | ⟨.send peer f, a⟩ :: rest => (peer, f, a) :: sends rest
  | _ :: rest => sends rest

/-- From whom a rank tried to receive, and what came of it. -/
def receipts : Trace → List (Nat × Except GroupError Frame)
  | [] => []
  | ⟨.receive peer, a⟩ :: rest => (peer, a) :: receipts rest
  | _ :: rest => receipts rest

theorem sends_append (before after : Trace) :
    sends (before ++ after) = sends before ++ sends after := by
  induction before with
  | nil => rfl
  | cons x rest ih =>
    obtain ⟨call, a⟩ := x
    cases call <;> simp [sends, ih]

theorem receipts_append (before after : Trace) :
    receipts (before ++ after) = receipts before ++ receipts after := by
  induction before with
  | nil => rfl
  | cons x rest ih =>
    obtain ⟨call, a⟩ := x
    cases call <;> simp [receipts, ih]

/-! ## Loops of the root -/

variable {step : Step} {trace : Trace}

/-- What the root makes of its receipts. -/
def understood (step : Step) (trace : Trace) : List (Except GroupError Payload) :=
  (receipts trace).map fun x => x.2.bind (checked x.1 step)

theorem run_collect {ranks : List Nat} {received : List (Except GroupError Payload)}
    (h : (collect step ranks).Run trace received) : sends trace = [] ∧
      (receipts trace).map Prod.fst = ranks ∧ received = understood step trace := by
  induction ranks generalizing trace received with
  | nil =>
    cases h
    exact ⟨rfl, rfl, rfl⟩
  | cons peer rest ih =>
    cases h with
    | @ask _ _ a trace _ h =>
      have hbind : ((collect step rest).bind fun more =>
        .done (Except.bind a (checked peer step) :: more)).Run trace received := h
      obtain ⟨before, more, after, hmore, hafter, rfl⟩ := hbind.of_bind
      cases hafter
      obtain ⟨hsends, hranks, rfl⟩ := ih hmore
      simp [sends, receipts, understood, hsends, hranks]

theorem run_tell {e : GroupError} {ranks : List Nat} {u : Unit}
    (h : (tell step e ranks).Run trace u) : receipts trace = [] ∧
      (sends trace).map (fun x => (x.1, x.2.1)) =
        ranks.map fun p => (p, frame step (.failure e.message)) := by
  induction ranks generalizing trace with
  | nil =>
    cases h
    exact ⟨rfl, rfl⟩
  | cons peer rest ih =>
    cases h with
    | @ask _ _ a trace _ h =>
      cases a with
      | ok _ =>
        have hrest : (tell step e rest).Run trace u := h
        obtain ⟨hreceipts, hsends⟩ := ih hrest
        exact ⟨hreceipts, congrArg ((peer, frame step (.failure e.message)) :: ·) hsends⟩
      | error cause =>
        cases h with
        | @ask _ _ _ trace _ h =>
          have hrest : (tell step e rest).Run trace u := h
          obtain ⟨hreceipts, hsends⟩ := ih hrest
          exact ⟨hreceipts, congrArg ((peer, frame step (.failure e.message)) :: ·) hsends⟩

theorem run_answer {replies : List (Nat × Payload)} {result : Except GroupError Unit}
    (h : (answer step replies).Run trace result) : receipts trace = [] ∧
      ((result = .ok () ∧ sends trace = replies.map fun x => (x.1, frame step x.2, .ok ())) ∨
        ∃ e sent peer payload unsent, result = .error e ∧
          replies = sent ++ (peer, payload) :: unsent ∧
          sends trace = sent.map (fun x => (x.1, frame step x.2, .ok ())) ++
            [(peer, frame step payload, .error e)]) := by
  induction replies generalizing trace result with
  | nil =>
    cases h
    exact ⟨rfl, .inl ⟨rfl, rfl⟩⟩
  | cons x rest ih =>
    obtain ⟨peer, payload⟩ := x
    cases h with
    | @ask _ _ a trace _ h =>
      cases a with
      | error e =>
        cases h
        exact ⟨rfl, .inr ⟨e, [], peer, payload, rest, rfl, rfl, rfl⟩⟩
      | ok u =>
        have hrest : (answer step rest).Run trace result := h
        obtain ⟨hreceipts, hok | hstopped⟩ := ih hrest
        · obtain ⟨hok, hsends⟩ := hok
          exact ⟨hreceipts, .inl ⟨hok, by simp [sends, hsends]⟩⟩
        · obtain ⟨e, sent, peer', payload', unsent, he, hreplies, hsends⟩ := hstopped
          refine ⟨hreceipts, .inr ⟨e, (peer, payload) :: sent, peer', payload', unsent, he, ?_, ?_⟩⟩
          · rw [hreplies, List.cons_append]
          · simp [sends, hsends]

/-! ## The part of the root -/

variable {size k : Nat} {ρ : Offer} {tried : List Sent} {result : Except GroupError Payload}

def verdict (outcome : Except GroupError (List Payload)) (p : Nat) : Option Payload :=
  match outcome with
  | .error e => some (.failure e.message)
  | .ok replies => replies[p]?

/-- The root has replies, and one of them cannot be sent to a rank above `p`. -/
def Skipped (outcome : Except GroupError (List Payload)) (tried : List Sent) (p : Nat) : Prop :=
  (∃ replies, outcome = .ok replies) ∧ ∃ q f e, (q, f, .error e) ∈ tried ∧ p < q

/-- What the sends of the root come to. -/
structure Served (size k : Nat) (ρ : Offer) (outcome : Except GroupError (List Payload))
    (tried : List Sent) : Prop where
  peer : ∀ x ∈ tried, x.1 ∈ peers size
  frame : ∀ x ∈ tried, ∃ payload, verdict outcome x.1 = some payload ∧
    x.2.1 = Exchange.frame (ρ.step k) payload
  once : ∀ p ∈ peers size, ¬ Skipped outcome tried p → (tried.map Prod.fst).count p = 1
  skipped : ∀ p ∈ peers size, Skipped outcome tried p → p ∉ tried.map Prod.fst

theorem served_of_error {e : GroupError}
    (h : tried.map (fun x => (x.1, x.2.1)) =
      (peers size).map fun p => (p, Exchange.frame (ρ.step k) (.failure e.message))) :
    Served size k ρ (.error e) tried := by
  have hpeers : tried.map Prod.fst = peers size := by
    have hfst := congrArg (List.map Prod.fst) h
    simp only [List.map_map] at hfst
    exact hfst.trans (List.map_id _)
  have hsent : ∀ x ∈ tried,
      x.1 ∈ peers size ∧ x.2.1 = Exchange.frame (ρ.step k) (.failure e.message) := by
    intro x hx
    have hmem : (x.1, x.2.1) ∈ tried.map fun x => (x.1, x.2.1) :=
      List.mem_map_of_mem (f := fun x => (x.1, x.2.1)) hx
    rw [h, List.mem_map] at hmem
    obtain ⟨p, hp, heq⟩ := hmem
    obtain ⟨rfl, hframe⟩ := Prod.mk.inj heq
    exact ⟨hp, hframe.symm⟩
  refine ⟨fun x hx => (hsent x hx).1, fun x hx => ⟨_, rfl, (hsent x hx).2⟩, ?_, ?_⟩
  · intro p hp _
    rw [hpeers]
    exact List.count_eq_one_of_mem List.nodup_range' hp
  · rintro p _ ⟨⟨_, hok⟩, _⟩
    cases hok

/-- What was tried are answers that go out. -/
def Outgoing (size k : Nat) (ρ : Offer) (replies : List Payload) (tried : List Sent) : Prop :=
  ∀ x ∈ tried, ∃ payload, (x.1, payload) ∈ Place.outgoing size replies ∧
    x.2.1 = Exchange.frame (ρ.step k) payload

theorem Outgoing.peer {replies : List Payload} (h : Outgoing size k ρ replies tried) :
    ∀ x ∈ tried, x.1 ∈ peers size := by
  intro x hx
  obtain ⟨_, hmem, -⟩ := h x hx
  exact mem_peers.mpr ⟨(mem_outgoing hmem).1, (mem_outgoing hmem).2.1⟩

theorem Outgoing.frame {replies : List Payload} (h : Outgoing size k ρ replies tried) :
    ∀ x ∈ tried, ∃ payload, verdict (.ok replies) x.1 = some payload ∧
      x.2.1 = Exchange.frame (ρ.step k) payload := by
  intro x hx
  obtain ⟨payload, hmem, hframe⟩ := h x hx
  exact ⟨payload, (mem_outgoing hmem).2.2, hframe⟩

theorem served_of_ok {replies : List Payload} (hlength : replies.length = size)
    (h : tried = (Place.outgoing size replies).map fun x =>
      (x.1, Exchange.frame (ρ.step k) x.2, .ok ())) : Served size k ρ (.ok replies) tried := by
  have hpeers : tried.map Prod.fst = (peers size).reverse := by
    rw [h, List.map_map, ← map_fst_outgoing hlength]
    rfl
  have hout : Outgoing size k ρ replies tried := by
    intro x hx
    rw [h, List.mem_map] at hx
    obtain ⟨y, hy, rfl⟩ := hx
    exact ⟨y.2, hy, rfl⟩
  refine ⟨hout.peer, hout.frame, fun p hp _ => ?_, ?_⟩
  · rw [hpeers, List.count_reverse]
    exact List.count_eq_one_of_mem List.nodup_range' hp
  · rintro p _ ⟨-, q, f, e, hfailed, -⟩
    rw [h, List.mem_map] at hfailed
    obtain ⟨_, _, heq⟩ := hfailed
    cases heq

theorem served_of_stop {replies : List Payload} {sent unsent : List (Nat × Payload)} {peer : Nat}
    {payload : Payload} {e : GroupError} (hlength : replies.length = size)
    (hreplies : Place.outgoing size replies = sent ++ (peer, payload) :: unsent)
    (h : tried = sent.map (fun x => (x.1, Exchange.frame (ρ.step k) x.2, .ok ())) ++
      [(peer, Exchange.frame (ρ.step k) payload, .error e)]) :
    Served size k ρ (.ok replies) tried := by
  have hpeers : tried.map Prod.fst = sent.map Prod.fst ++ [peer] := by
    rw [h, List.map_append, List.map_map]
    rfl
  have hall : (peers size).reverse = sent.map Prod.fst ++ peer :: unsent.map Prod.fst := by
    rw [← map_fst_outgoing hlength, hreplies, List.map_append, List.map_cons]
  have hout : Outgoing size k ρ replies tried := by
    intro x hx
    rw [h, List.mem_append, List.mem_map, List.mem_singleton] at hx
    rw [hreplies]
    rcases hx with ⟨y, hy, rfl⟩ | rfl
    · exact ⟨y.2, List.mem_append_left _ hy, rfl⟩
    · exact ⟨payload, List.mem_append_right _ List.mem_cons_self, rfl⟩
  have hfailed (q : Nat) : (∃ f e, (q, f, .error e) ∈ tried) ↔ q = peer := by
    rw [h]
    simp only [List.mem_append, List.mem_map, List.mem_singleton, Prod.mk.injEq]
    constructor
    · rintro ⟨_, _, ⟨_, _, _, _, hok⟩ | ⟨rfl, -, -⟩⟩
      · cases hok
      · rfl
    · rintro rfl
      exact ⟨_, e, .inr ⟨rfl, rfl, rfl⟩⟩
  obtain ⟨habove, hbelow, hnodup⟩ := peers_split hall
  refine ⟨hout.peer, hout.frame, fun p hp hnot => ?_, ?_⟩
  · rw [hpeers]
    refine List.count_eq_one_of_mem hnodup ?_
    -- A rank among the unsent ones is below the one that fails.
    have hmem : p ∈ sent.map Prod.fst ++ peer :: unsent.map Prod.fst := by
      rw [← hall]
      exact List.mem_reverse.mpr hp
    rw [List.mem_append, List.mem_cons] at hmem
    rcases hmem with hsent | rfl | hunsent
    · exact List.mem_append_left _ hsent
    · exact List.mem_append_right _ List.mem_cons_self
    · obtain ⟨f, e', hmem⟩ := (hfailed peer).mpr rfl
      exact absurd ⟨⟨replies, rfl⟩, peer, f, e', hmem, hbelow p hunsent⟩ hnot
  · rintro p _ ⟨-, q, f, cause, hq, hlt⟩ hp
    obtain rfl := (hfailed q).mp ⟨f, cause, hq⟩
    rw [hpeers, List.mem_append, List.mem_singleton] at hp
    rcases hp with hsent | rfl
    · exact Nat.lt_asymm hlt (habove p hsent)
    · exact Nat.lt_irrefl _ hlt

theorem run_closing {received : List (Except GroupError Payload)}
    (h : (closing size k ρ received).Run trace result) :
    receipts trace = [] ∧ Served size k ρ (Place.outcome size ρ received) (sends trace) := by
  cases houtcome : Place.outcome size ρ received with
  | error e =>
    simp only [closing, houtcome] at h
    cases h with
    | @ask _ _ _ trace _ h =>
      have hbind : ((tell (ρ.step k) e (peers size)).bind fun _ =>
        .done (.error e)).Run trace result := h
      obtain ⟨before, _, after, htell, hafter, rfl⟩ := hbind.of_bind
      cases hafter
      rw [List.append_nil]
      obtain ⟨hreceipts, hsends⟩ := run_tell htell
      exact ⟨hreceipts, served_of_error hsends⟩
  | ok replies =>
    obtain ⟨_, _, _, hlength⟩ := outcome_eq_ok_iff.mp houtcome
    simp only [closing, houtcome] at h
    obtain ⟨before, given, after, hanswer, hafter, rfl⟩ := h.of_bind
    have hnothing : after = [] := by
      cases given with
      | error e =>
        cases hafter
        rfl
      | ok u =>
        cases hafter
        rfl
    subst hnothing
    rw [List.append_nil]
    obtain ⟨hreceipts, ⟨-, hsends⟩ | hstop⟩ := run_answer hanswer
    · exact ⟨hreceipts, served_of_ok hlength hsends⟩
    · obtain ⟨e, sent, peer, payload, unsent, -, hreplies, hsends⟩ := hstop
      exact ⟨hreceipts, served_of_stop hlength hreplies hsends⟩

/-- The root sends to every peer once, unless one sending fails: then all ranks below that one get nothing.
-/
theorem served_of_run {m : Member} (hm : m.isRoot = true) (ρ : Offer) (sequence : Nat)
    {trace : Trace} {result : Except GroupError Payload × Nat}
    (h : (ρ.dialogue m sequence).Run trace result) :
    (receipts trace).map Prod.fst = peers m.size ∧
      Served m.size (sequence + 1) ρ
        (Place.outcome m.size ρ (understood (ρ.step (sequence + 1)) trace)) (sends trace) := by
  rw [← dialogue_entering, Place.dialogue] at h
  obtain ⟨whole, r, after, hwhole, hafter, rfl⟩ := h.of_bind
  cases hafter
  rw [List.append_nil]
  cases hwhole with
  | @ask _ _ _ trace _ hrest =>
    simp only [hm, if_true] at hrest
    rw [lead_eq, rest_collectFrom] at hrest
    obtain ⟨before, received, after, hcollect, hclosing, rfl⟩ := hrest.of_bind
    obtain ⟨hnone, hpeers, rfl⟩ := run_collect hcollect
    obtain ⟨hreceipts, hserved⟩ := run_closing hclosing
    simpa [sends, receipts, understood, sends_append, receipts_append, hnone, hreceipts, hpeers]
      using hserved

/-- Rank 2 of three contributes to a barrier and breaks off. -/
def brokenOff : (call : LinkCall) → call.Answer
  | .send 2 _ => .error (.disconnected 2)
  | .send _ _ => .ok ()
  | .receive _ => .ok ⟨.barrier, 1, .empty⟩
  | .close => .ok ()
  | .leave => ()
  | .log _ => ()

def barrierOfThree : Offer := ⟨.barrier, .empty, fun _ => .ok (List.replicate 3 .empty)⟩

theorem served_before_break :
    let run := (barrierOfThree.dialogue ⟨0, 3, "a"⟩ 0).play brokenOff
    sends run.1 = [(2, ⟨.barrier, 1, .empty⟩, .error (.disconnected 2))] ∧
      ((sends run.1).map Prod.fst).count 2 = 1 ∧ 1 ∉ (sends run.1).map Prod.fst := by
  have hrun := Dialogue.run_play brokenOff (barrierOfThree.dialogue ⟨0, 3, "a"⟩ 0)
  obtain ⟨-, hserved⟩ := served_of_run rfl barrierOfThree 0 hrun
  refine ⟨rfl, hserved.once 2 (by decide) ?_, hserved.skipped 1 (by decide) ?_⟩
  · rintro ⟨-, q, f, e, hfailed, hlt⟩
    cases hfailed with
    | head => exact Nat.lt_irrefl _ hlt
    | tail _ hnone => cases hnone
  · exact ⟨⟨_, rfl⟩, 2, _, _, List.mem_cons_self, by decide⟩

/-- Rank 1 did its part in the barrier and is never answered. -/
theorem not_always_answered : ¬ ∀ (m : Member) (ρ : Offer) (sequence : Nat) (trace : Trace)
    (result : Except GroupError Payload × Nat), m.isRoot = true →
      (ρ.dialogue m sequence).Run trace result →
        ∀ p ∈ peers m.size, ((sends trace).map Prod.fst).count p = 1 := by
  intro hall
  have hone := hall ⟨0, 3, "a"⟩ barrierOfThree 0 _ _ rfl (Dialogue.run_play brokenOff _) 1 (by decide)
  have hsends : sends ((barrierOfThree.dialogue ⟨0, 3, "a"⟩ 0).play brokenOff).1 =
    [(2, ⟨.barrier, 1, .empty⟩, .error (.disconnected 2))] := rfl
  rw [hsends] at hone
  cases hone

end Exchange

end Lagmeter
