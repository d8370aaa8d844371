import Lagmeter.Proofs.Group.Mesh
import Mathlib.Data.List.Induction

/-!
# Calls to a mesh

The ranks of a mesh call it in any order. What each call was answered is written down, and from this
past one reads off what was sent, what was received, and who has closed. Between the two ends of a
pair nothing is lost, doubled or put in another order.
-/

namespace Lagmeter.Mesh

/-- What a mesh answers to a call, nothing while the call has to wait, and the mesh afterwards. -/
def act (m : Mesh) (rank : Nat) (call : LinkCall) : Option call.Answer × Mesh :=
  match m.perform rank call with
  | .answered answer next _ => (some answer, next)
  | .wait _ => (none, m)

/-- What a rank is answered that sends a frame. -/
def sending (m : Mesh) (rank peer : Nat) (f : Frame) : Option (Except GroupError Unit) :=
  (m.act rank (.send peer f)).1

/-- What a rank is answered that receives, nothing while it has to wait. -/
def receiving (m : Mesh) (rank peer : Nat) : Option (Except GroupError Frame) :=
  (m.act rank (.receive peer)).1

/-- A call of a rank, and what it was answered. -/
structure Entry (size : Nat) where
  rank : Fin size
  call : LinkCall
  answer : Option call.Answer

/-- What answers the calls, and the calls that were made to it, the newest last. -/
structure Chronicle (size : Nat) (State : Type) where
  past : List (Entry size)
  state : State

section Chronicle

variable {size : Nat} {State : Type}
  (answers : State → Nat → (call : LinkCall) → Option call.Answer × State)

def Chronicle.called (c : Chronicle size State) (op : Fin size × LinkCall) : Chronicle size State :=
  ⟨c.past ++ [⟨op.1, op.2, (answers c.state op.1 op.2).1⟩], (answers c.state op.1 op.2).2⟩

/-- What comes of some calls. -/
def chronicle (start : State) (ops : List (Fin size × LinkCall)) : Chronicle size State :=
  ops.foldl (Chronicle.called answers) ⟨[], start⟩

variable {answers}

theorem chronicle_append (start : State) (ops : List (Fin size × LinkCall)) (op : Fin size × LinkCall) :
    chronicle answers start (ops ++ [op]) = (chronicle answers start ops).called answers op := by
  simp [chronicle]

end Chronicle

/-- A new mesh after some calls. -/
abbrev after {size : Nat} (ops : List (Fin size × LinkCall)) : Chronicle size Mesh :=
  chronicle act (ofSize size) ops

variable {size : Nat}

/-! ## Reading the past -/

namespace Entry

/-- The frame that `a` sent to `b`, if that is what the call was for and it went well. -/
def sent? (a b : Nat) : Entry size → Option Frame
  | ⟨rank, .send peer frame, some (.ok ())⟩ => if a = rank ∧ b = peer then some frame else none
  | _ => none

/-- The frame from `a` that `b` was given. -/
def received? (a b : Nat) : Entry size → Option Frame
  | ⟨rank, .receive peer, some (.ok frame)⟩ => if a = peer ∧ b = rank then some frame else none
  | _ => none

/-- The rank closes its end, or drops it. -/
def closes (a : Nat) : Entry size → Bool
  | ⟨rank, .close, _⟩ => rank = a
  | ⟨rank, .leave, _⟩ => rank = a
  | _ => false

end Entry

/-- The frames that `a` has sent to `b`. -/
def sent (past : List (Entry size)) (a b : Nat) : List Frame := past.filterMap (·.sent? a b)

/-- The frames from `a` that `b` has received. -/
def received (past : List (Entry size)) (a b : Nat) : List Frame := past.filterMap (·.received? a b)

def hasClosed (past : List (Entry size)) (a : Nat) : Bool := past.any (·.closes a)

variable {past : List (Entry size)} {e : Entry size} {a b : Nat}

theorem sent_append : sent (past ++ [e]) a b = sent past a b ++ (e.sent? a b).toList := by
  cases h : e.sent? a b <;> simp [sent, h]

theorem received_append :
    received (past ++ [e]) a b = received past a b ++ (e.received? a b).toList := by
  cases h : e.received? a b <;> simp [received, h]

theorem hasClosed_append : hasClosed (past ++ [e]) a = (hasClosed past a || e.closes a) := by
  simp [hasClosed]

/-! ## What one call does -/

/-- The peer is another rank of the group. -/
def IsPeer (size rank peer : Nat) : Prop := peer < size ∧ peer ≠ rank

instance (size rank peer : Nat) : Decidable (IsPeer size rank peer) :=
  inferInstanceAs (Decidable (_ ∧ _))

theorem not_isPeer_iff {rank peer : Nat} : ¬ IsPeer size rank peer ↔ size ≤ peer ∨ peer = rank := by
  unfold IsPeer
  omega

theorem IsPeer.symm {rank peer : Nat} (h : IsPeer size rank peer) (hr : rank < size) :
    IsPeer size peer rank := ⟨hr, h.2.symm⟩

variable {m : Mesh} {rank peer : Nat}

@[simp] theorem openAt_setQueue (m : Mesh) (a b : Nat) (frames : List Frame) (r : Nat) :
    (m.setQueue a b frames).openAt r = m.openAt r := rfl

@[simp] theorem queue_close (m : Mesh) (r a b : Nat) : (m.close r).queue a b = m.queue a b := rfl

theorem checkPeer_eq (hm : Fits size m) (rank peer : Nat) : m.checkPeer rank peer =
    if IsPeer size rank peer then .ok () else .error (.invalidRank peer size) := by
  rw [checkPeer, hm.size_eq, if_congr not_isPeer_iff.symm rfl rfl, ite_not]

theorem act_send (hm : Fits size m) (rank peer : Nat) (f : Frame) : m.act rank (.send peer f) =
    if IsPeer size rank peer then
      if m.openAt rank ∧ m.openAt peer then (some (.ok ()), m.setQueue rank peer (m.queue rank peer ++ [f]))
      else (some (.error (.disconnected peer)), m)
    else (some (.error (.invalidRank peer size)), m) := by
  simp only [act, perform, send, checkPeer_eq hm]
  by_cases hpeer : IsPeer size rank peer
  · by_cases hopen : m.openAt rank ∧ m.openAt peer
    · simp [hpeer, hopen]
    · have hshut : (m.openAt rank && m.openAt peer) = false := by simpa using hopen
      simp [hpeer, hopen, hshut]
  · simp [hpeer]

theorem act_receive (hm : Fits size m) (rank peer : Nat) : m.act rank (.receive peer) =
    if IsPeer size rank peer then
      if m.openAt rank then
        match m.queue peer rank with
        | f :: rest => (some (.ok f), m.setQueue peer rank rest)
        | [] => if m.openAt peer then (none, m) else (some (.error (.disconnected peer)), m)
      else (some (.error (.disconnected peer)), m)
    else (some (.error (.invalidRank peer size)), m) := by
  simp only [act, perform, receive, checkPeer_eq hm]
  by_cases hpeer : IsPeer size rank peer
  · cases hopen : m.openAt rank with
    | false => simp [hpeer]
    | true =>
      cases hqueue : m.queue peer rank with
      | cons f rest => simp [hpeer]
      | nil => cases hother : m.openAt peer <;> simp [hpeer]
  · simp [hpeer]

/-! ## Every state a mesh comes to -/

/-- What holds between a mesh and its past. -/
structure Kept (c : Chronicle size Mesh) : Prop where
  fits : Fits size c.state
  sent_eq : ∀ a < size, ∀ b < size, sent c.past a b = received c.past a b ++ c.state.queue a b
  openAt_eq : ∀ a < size, c.state.openAt a = !hasClosed c.past a

variable {c : Chronicle size Mesh}

theorem Kept.idle (hc : Kept c) (hsent : ∀ a b, e.sent? a b = none)
    (hreceived : ∀ a b, e.received? a b = none) (hcloses : ∀ a, e.closes a = false) :
    Kept ⟨c.past ++ [e], c.state⟩ where
  fits := hc.fits
  sent_eq a ha b hb := by simpa [sent_append, received_append, hsent, hreceived] using hc.sent_eq a ha b hb
  openAt_eq a ha := by simpa [hasClosed_append, hcloses] using hc.openAt_eq a ha

theorem Kept.send (hc : Kept c) (rank : Fin size) (peer : Nat) (f : Frame) :
    Kept (c.called act (rank, .send peer f)) := by
  simp only [Chronicle.called, act_send hc.fits]
  by_cases hpeer : IsPeer size rank peer
  · by_cases hopen : c.state.openAt rank ∧ c.state.openAt peer
    · simp only [hpeer, hopen, if_true, and_self]
      refine ⟨hc.fits.setQueue _ _ _, fun a ha b hb => ?_, fun a ha => ?_⟩
      · rw [queue_setQueue hc.fits rank.2 hpeer.1 hb, sent_append, received_append, hc.sent_eq a ha b hb]
        by_cases hab : a = rank ∧ b = peer
        · obtain ⟨rfl, rfl⟩ := hab
          simp [Entry.sent?, Entry.received?]
        · rw [if_neg hab]
          simp [Entry.sent?, Entry.received?, hab]
      · rw [hasClosed_append]
        simpa [Entry.closes] using hc.openAt_eq a ha
    · simp only [hpeer, hopen, if_true, if_false]
      exact hc.idle (fun _ _ => rfl) (fun _ _ => rfl) (fun _ => rfl)
  · simp only [hpeer, if_false]
    exact hc.idle (fun _ _ => rfl) (fun _ _ => rfl) (fun _ => rfl)

theorem Kept.receive (hc : Kept c) (rank : Fin size) (peer : Nat) :
    Kept (c.called act (rank, .receive peer)) := by
  simp only [Chronicle.called, act_receive hc.fits]
  by_cases hpeer : IsPeer size rank peer
  · by_cases hopen : c.state.openAt rank
    · simp only [hpeer, hopen, if_true]
      cases hqueue : c.state.queue peer rank with
      | cons f rest =>
        refine ⟨hc.fits.setQueue _ _ _, fun a ha b hb => ?_, fun a ha => ?_⟩
        · rw [queue_setQueue hc.fits hpeer.1 rank.2 hb, sent_append, received_append, hc.sent_eq a ha b hb]
          by_cases hab : a = peer ∧ b = rank
          · obtain ⟨rfl, rfl⟩ := hab
            simp [Entry.sent?, Entry.received?, hqueue]
          · rw [if_neg hab]
            simp [Entry.sent?, Entry.received?, hab]
        · rw [hasClosed_append]
          simpa [Entry.closes] using hc.openAt_eq a ha
      | nil =>
        cases c.state.openAt peer with
        | true => exact hc.idle (fun _ _ => rfl) (fun _ _ => rfl) (fun _ => rfl)
        | false => exact hc.idle (fun _ _ => rfl) (fun _ _ => rfl) (fun _ => rfl)
    · simp only [hpeer, hopen, if_true]
      exact hc.idle (fun _ _ => rfl) (fun _ _ => rfl) (fun _ => rfl)
  · simp only [hpeer, if_false]
    exact hc.idle (fun _ _ => rfl) (fun _ _ => rfl) (fun _ => rfl)

theorem Kept.shut (hc : Kept c) (hrank : e.rank = a) (hsent : ∀ a b, e.sent? a b = none)
    (hreceived : ∀ a b, e.received? a b = none) (hcloses : ∀ x, e.closes x = decide (a = x)) :
    Kept ⟨c.past ++ [e], c.state.close a⟩ where
  fits := hc.fits.close a
  sent_eq x hx y hy := by simpa [sent_append, received_append, hsent, hreceived] using hc.sent_eq x hx y hy
  openAt_eq x hx := by
    rw [openAt_close hc.fits (hrank ▸ e.rank.2), hasClosed_append, hcloses, hc.openAt_eq x hx]
    by_cases h : x = a
    · simp [h]
    · simp [h, Ne.symm h]

theorem Kept.called (hc : Kept c) (op : Fin size × LinkCall) : Kept (c.called act op) := by
  obtain ⟨rank, call⟩ := op
  cases call with
  | send peer f => exact hc.send rank peer f
  | receive peer => exact hc.receive rank peer
  | close => exact hc.shut rfl (fun _ _ => rfl) (fun _ _ => rfl) (fun _ => rfl)
  | leave => exact hc.shut rfl (fun _ _ => rfl) (fun _ _ => rfl) (fun _ => rfl)
  | log event => exact hc.idle (fun _ _ => rfl) (fun _ _ => rfl) (fun _ => rfl)

theorem kept_after (ops : List (Fin size × LinkCall)) : Kept (after ops) := by
  induction ops using List.reverseRecOn with
  | nil =>
    refine ⟨fits_ofSize size, fun a ha b hb => ?_, fun a ha => ?_⟩
    · have hqueue := queue_fresh size a b
      simp only [lines, fresh, ha, hb, and_self, if_true] at hqueue
      simp [chronicle, sent, received, hqueue]
    · have hopen : (ofSize size).openAt a = true := (fresh_lines size a ha).1
      simp [chronicle, hasClosed, hopen]
  | append_singleton ops op ih =>
    rw [after, chronicle_append]
    exact ih.called op

end Lagmeter.Mesh
