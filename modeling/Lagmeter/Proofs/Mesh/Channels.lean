import Lagmeter.Proofs.Mesh.Wiring

/-!
# A mesh is a channel for each pair of ranks

Whatever the ranks call and in whatever order, a rank receives from another what that one sent, in the
same order and each frame once. This is put together from what holds of a mesh with its past.
-/

namespace Lagmeter.Mesh

variable {size : Nat}

/-- The call of this rank works on the queue from `a` to `b`. -/
def WorksOn (rank a b : Nat) : LinkCall → Prop
  | .send peer _ => a = rank ∧ b = peer
  | .receive peer => a = peer ∧ b = rank
  | _ => False

/-- `b` asks for a frame of `a`. -/
def asks (a b : Nat) : Fin size × LinkCall → Bool
  | (rank, .receive peer) => rank = b && peer = a
  | _ => false

/-- What a mesh of `size` ranks answers after any calls, and what these calls have come to. A rank that
was dropped has closed. -/
structure Conveying (ops : List (Fin size × LinkCall)) : Prop where
  /-- What was received is the beginning of what was sent. -/
  in_order : ∀ a b : Fin size, received (after ops).past a b <+: sent (after ops).past a b
  /-- The queue is what was sent and not yet received. -/
  queue_eq : ∀ a b : Fin size, (after ops).state.queue a b =
    (sent (after ops).past a b).drop (received (after ops).past a b).length
  others : ∀ (rank : Fin size) (call : LinkCall) (a b : Fin size), ¬ WorksOn rank a b call →
    ((after ops).state.act rank call).2.queue a b = (after ops).state.queue a b
  sends : ∀ (rank : Fin size) (peer : Nat) (f : Frame),
    (after ops).state.sending rank peer f = some (.ok ()) ↔ IsPeer size rank peer ∧
      hasClosed (after ops).past rank = false ∧ hasClosed (after ops).past peer = false
  unsent : ∀ (rank : Fin size) (peer : Nat) (f : Frame),
    (after ops).state.sending rank peer f = some (.error (.disconnected peer)) ↔
      IsPeer size rank peer ∧
        (hasClosed (after ops).past rank = true ∨ hasClosed (after ops).past peer = true)
  receives : ∀ (rank : Fin size) (peer : Nat) (f : Frame),
    (after ops).state.receiving rank peer = some (.ok f) ↔ IsPeer size rank peer ∧
      hasClosed (after ops).past rank = false ∧ ((after ops).state.queue peer rank).head? = some f
  bereft : ∀ (rank : Fin size) (peer : Nat),
    (after ops).state.receiving rank peer = some (.error (.disconnected peer)) ↔
      IsPeer size rank peer ∧ (hasClosed (after ops).past rank = true ∨
        ((after ops).state.queue peer rank = [] ∧ hasClosed (after ops).past peer = true))
  waits : ∀ (rank : Fin size) (peer : Nat), (after ops).state.receiving rank peer = none ↔
    IsPeer size rank peer ∧ hasClosed (after ops).past rank = false ∧
      (after ops).state.queue peer rank = [] ∧ hasClosed (after ops).past peer = false
  /-- A rank that is no peer is refused, and all stays as it is. -/
  refuses : ∀ (rank : Fin size) (peer : Nat) (f : Frame), ¬ IsPeer size rank peer →
    (after ops).state.act rank (.send peer f) = (some (.error (.invalidRank peer size)), (after ops).state) ∧
      (after ops).state.act rank (.receive peer) =
        (some (.error (.invalidRank peer size)), (after ops).state)
  /-- A rank that goes on to ask, and has not closed, gets all that was sent to it before. -/
  delivers : ∀ (a b : Fin size) (more : List (Fin size × LinkCall)), a ≠ b →
    hasClosed (after (ops ++ more)).past b = false →
    ((after ops).state.queue a b).length ≤ more.countP (asks a b) →
    sent (after ops).past a b <+: received (after (ops ++ more)).past a b
  /-- Tables of channels give the same answers. -/
  wired : (Wiring.after ops).past = (after ops).past

variable {c : Chronicle size Mesh} {rank : Fin size} {peer : Nat}

/-! ## What is on its way -/

theorem Kept.received_le_sent (hc : Kept c) (a b : Fin size) : received c.past a b <+: sent c.past a b :=
  ⟨_, (hc.sent_eq a a.2 b b.2).symm⟩

theorem Kept.queue_eq (hc : Kept c) (a b : Fin size) :
    c.state.queue a b = (sent c.past a b).drop (received c.past a b).length := by
  rw [hc.sent_eq a a.2 b b.2, List.drop_left]

theorem Kept.queue_of_not_worksOn (hc : Kept c) (call : LinkCall) (a b : Fin size)
    (h : ¬ WorksOn rank a b call) : (c.state.act rank call).2.queue a b = c.state.queue a b := by
  cases call with
  | send peer f =>
    rw [act_send hc.fits]
    split
    next hpeer =>
      split
      · exact (queue_setQueue hc.fits rank.2 hpeer.1 b.2 _).trans (if_neg h)
      · rfl
    · rfl
  | receive peer =>
    rw [act_receive hc.fits]
    split
    next hpeer =>
      split
      · split
        · exact (queue_setQueue hc.fits hpeer.1 rank.2 b.2 _).trans (if_neg h)
        · split <;> rfl
      · rfl
    · rfl
  | close => rfl
  | leave => rfl
  | log event => rfl

/-! ## Answers -/

theorem Kept.send_eq (hc : Kept c) (rank : Fin size) (peer : Nat) (f : Frame) :
    c.state.sending rank peer f =
      if IsPeer size rank peer then
        if hasClosed c.past rank = false ∧ hasClosed c.past peer = false then some (.ok ())
        else some (.error (.disconnected peer))
      else some (.error (.invalidRank peer size)) := by
  rw [sending, act_send hc.fits]
  by_cases hpeer : IsPeer size rank peer
  · simp only [hpeer, if_true, hc.openAt_eq rank rank.2, hc.openAt_eq peer hpeer.1, Bool.not_eq_true']
    split <;> rfl
  · rw [if_neg hpeer, if_neg hpeer]
    rfl

theorem Kept.receive_eq (hc : Kept c) (rank : Fin size) (peer : Nat) :
    c.state.receiving rank peer =
      if IsPeer size rank peer then
        if hasClosed c.past rank = false then
          match c.state.queue peer rank with
          | f :: _ => some (.ok f)
          | [] => if hasClosed c.past peer = false then none else some (.error (.disconnected peer))
        else some (.error (.disconnected peer))
      else some (.error (.invalidRank peer size)) := by
  rw [receiving, act_receive hc.fits]
  by_cases hpeer : IsPeer size rank peer
  · simp only [hpeer, if_true, hc.openAt_eq rank rank.2, hc.openAt_eq peer hpeer.1, Bool.not_eq_true']
    split
    · cases c.state.queue peer rank with
      | cons f rest => rfl
      | nil => simp only; split <;> rfl
    · rfl
  · rw [if_neg hpeer, if_neg hpeer]
    rfl

theorem Kept.sends_iff (hc : Kept c) (f : Frame) : c.state.sending rank peer f = some (.ok ()) ↔
    IsPeer size rank peer ∧ hasClosed c.past rank = false ∧ hasClosed c.past peer = false := by
  rw [hc.send_eq]
  by_cases hpeer : IsPeer size rank peer
  · by_cases hopen : hasClosed c.past rank = false ∧ hasClosed c.past peer = false
    · simp [hpeer, hopen]
    · simp [hpeer, hopen]
  · simp [hpeer]

theorem Kept.unsent_iff (hc : Kept c) (f : Frame) :
    c.state.sending rank peer f = some (.error (.disconnected peer)) ↔
      IsPeer size rank peer ∧ (hasClosed c.past rank = true ∨ hasClosed c.past peer = true) := by
  rw [hc.send_eq]
  by_cases hpeer : IsPeer size rank peer
  · cases hself : hasClosed c.past rank <;> cases hother : hasClosed c.past peer <;> simp [hpeer]
  · simp [hpeer]

theorem Kept.receives_iff (hc : Kept c) (f : Frame) :
    c.state.receiving rank peer = some (.ok f) ↔ IsPeer size rank peer ∧
      hasClosed c.past rank = false ∧ (c.state.queue peer rank).head? = some f := by
  rw [hc.receive_eq]
  by_cases hpeer : IsPeer size rank peer
  · cases hself : hasClosed c.past rank with
    | true => simp [hpeer]
    | false =>
      cases c.state.queue peer rank with
      | cons g rest => simp [hpeer]
      | nil => cases hasClosed c.past peer <;> simp [hpeer]
  · simp [hpeer]

theorem Kept.bereft_iff (hc : Kept c) :
    c.state.receiving rank peer = some (.error (.disconnected peer)) ↔
      IsPeer size rank peer ∧ (hasClosed c.past rank = true ∨
        (c.state.queue peer rank = [] ∧ hasClosed c.past peer = true)) := by
  rw [hc.receive_eq]
  by_cases hpeer : IsPeer size rank peer
  · cases hself : hasClosed c.past rank with
    | true => simp [hpeer]
    | false =>
      cases c.state.queue peer rank with
      | cons g rest => simp [hpeer]
      | nil => cases hasClosed c.past peer <;> simp [hpeer]
  · simp [hpeer]

theorem Kept.waits_iff (hc : Kept c) : c.state.receiving rank peer = none ↔
    IsPeer size rank peer ∧ hasClosed c.past rank = false ∧
      c.state.queue peer rank = [] ∧ hasClosed c.past peer = false := by
  rw [hc.receive_eq]
  by_cases hpeer : IsPeer size rank peer
  · cases hself : hasClosed c.past rank with
    | true => simp [hpeer]
    | false =>
      cases c.state.queue peer rank with
      | cons g rest => simp [hpeer]
      | nil => cases hasClosed c.past peer <;> simp [hpeer]
  · simp [hpeer]

/-! ## All that was sent is delivered -/

theorem after_append (ops : List (Fin size × LinkCall)) (op : Fin size × LinkCall) :
    after (ops ++ [op]) = (after ops).called act op := chronicle_append _ ops op

theorem received_le_called (c : Chronicle size Mesh) (op : Fin size × LinkCall) (a b : Nat) :
    received c.past a b <+: received (c.called act op).past a b := by
  rw [Chronicle.called, received_append]
  exact List.prefix_append _ _

theorem sent_le_called (c : Chronicle size Mesh) (op : Fin size × LinkCall) (a b : Nat) :
    sent c.past a b <+: sent (c.called act op).past a b := by
  rw [Chronicle.called, sent_append]
  exact List.prefix_append _ _

theorem hasClosed_of_called {op : Fin size × LinkCall} {a : Nat}
    (h : hasClosed (c.called act op).past a = false) : hasClosed c.past a = false := by
  rw [Chronicle.called, hasClosed_append, Bool.or_eq_false_iff] at h
  exact h.1

theorem Kept.length_received_of_asks (hc : Kept c) {a b : Fin size} (hab : a ≠ b)
    {op : Fin size × LinkCall} (hop : asks a b op = true) (hopen : hasClosed c.past b = false)
    (hleft : (received c.past a b).length < (sent c.past a b).length) :
    (received (c.called act op).past a b).length = (received c.past a b).length + 1 := by
  obtain ⟨rank, call⟩ := op
  cases call with
  | receive peer =>
    simp only [asks, Bool.and_eq_true, decide_eq_true_eq] at hop
    obtain ⟨hrank, rfl⟩ := hop
    obtain rfl := Fin.ext hrank
    have hsome : ((c.state.queue a rank).head?).isSome := by
      rw [hc.queue_eq, List.isSome_head?, ne_eq, List.drop_eq_nil_iff]
      omega
    obtain ⟨f, hf⟩ := Option.isSome_iff_exists.mp hsome
    have hpeer : IsPeer size rank a := ⟨a.2, fun h => hab (Fin.ext h)⟩
    have hanswer := (hc.receives_iff f).mpr ⟨hpeer, hopen, hf⟩
    have hentry : Entry.received? a rank ⟨rank, .receive a, c.state.receiving rank a⟩ = some f := by
      rw [hanswer]
      exact if_pos ⟨rfl, rfl⟩
    rw [Chronicle.called, received_append, List.length_append]
    exact congrArg (_ + List.length ·.toList) hentry
  | send peer f => cases hop
  | close => cases hop
  | leave => cases hop
  | log event => cases hop

theorem delivered (ops : List (Fin size × LinkCall)) {a b : Fin size} (hab : a ≠ b)
    (more : List (Fin size × LinkCall)) (hopen : hasClosed (after (ops ++ more)).past b = false) :
    min (sent (after ops).past a b).length
        ((received (after ops).past a b).length + more.countP (asks a b)) ≤
      (received (after (ops ++ more)).past a b).length ∧
    sent (after ops).past a b <+: sent (after (ops ++ more)).past a b := by
  induction more using List.reverseRecOn with
  | nil =>
    rw [List.append_nil]
    exact ⟨Nat.min_le_right _ _, List.prefix_rfl⟩
  | append_singleton more op ih =>
    rw [← List.append_assoc, after_append] at hopen ⊢
    obtain ⟨hlength, hpart⟩ := ih (hasClosed_of_called hopen)
    have hc := kept_after (ops ++ more)
    have hmore := (received_le_called (after (ops ++ more)) op a b).length_le
    refine ⟨?_, hpart.trans (sent_le_called _ op a b)⟩
    rw [List.countP_append, List.countP_singleton]
    cases hop : asks a b op with
    | false => simpa using Nat.le_trans hlength hmore
    | true =>
      by_cases hleft : (received (after (ops ++ more)).past a b).length <
          (sent (after (ops ++ more)).past a b).length
      · rw [hc.length_received_of_asks hab hop (hasClosed_of_called hopen) hleft]
        simp only [if_true]
        omega
      · have := hpart.length_le
        omega

/-- Any calls to a mesh leave it a channel for each pair of its ranks. -/
theorem conveying_after (ops : List (Fin size × LinkCall)) : Conveying ops where
  in_order := (kept_after ops).received_le_sent
  queue_eq := (kept_after ops).queue_eq
  others _ call a b := (kept_after ops).queue_of_not_worksOn call a b
  sends _ _ f := (kept_after ops).sends_iff f
  unsent _ _ f := (kept_after ops).unsent_iff f
  receives _ _ f := (kept_after ops).receives_iff f
  bereft _ _ := (kept_after ops).bereft_iff
  waits _ _ := (kept_after ops).waits_iff
  refuses rank peer f hpeer := by
    rw [act_send (kept_after ops).fits, act_receive (kept_after ops).fits, if_neg hpeer, if_neg hpeer]
    exact ⟨rfl, rfl⟩
  delivers a b more hab hopen hmore := by
    obtain ⟨hlength, hpart⟩ := delivered ops hab more hopen
    refine List.prefix_of_prefix_length_le hpart ((kept_after (ops ++ more)).received_le_sent a b) ?_
    have hsent := congrArg List.length ((kept_after ops).sent_eq a a.2 b b.2)
    rw [List.length_append] at hsent
    omega
  wired := (Wiring.carries_after ops).1.symm

end Lagmeter.Mesh
