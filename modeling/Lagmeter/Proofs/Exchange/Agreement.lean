import Lagmeter.Proofs.Exchange.Place

/-!
# When an exchange succeeds

The replies of an exchange follow from the offers with which the ranks come to it. There are
replies if every rank comes, all of them with the operation of the root, and the root can combine
what they contribute. Rank `r` gets reply number `r`.
-/

namespace Lagmeter.Exchange

/-- The replies of an exchange to which rank `q` comes with `offers q`. -/
def Agreed (size : Nat) (offers : Nat → Option Offer) (replies : List Payload) : Prop :=
  ∃ common : Nat → Offer, (∀ q < size, offers q = some (common q)) ∧
    (∀ q < size, (common q).operation = (common 0).operation) ∧
    (common 0).combine ((List.range size).map fun q => (common q).contribution) = .ok replies ∧
    replies.length = size

theorem Agreed.mono {size : Nat} {offers offers' : Nat → Option Offer} {replies : List Payload}
    (h : Agreed size offers replies)
    (hmono : ∀ q < size, ∀ ρ, offers q = some ρ → offers' q = some ρ) :
    Agreed size offers' replies := by
  obtain ⟨common, hcommon, hrest⟩ := h
  exact ⟨common, fun q hq => hmono q hq _ (hcommon q hq), hrest⟩

theorem Agreed.length_eq {size : Nat} {offers : Nat → Option Offer} {replies : List Payload}
    (h : Agreed size offers replies) : replies.length = size := by
  obtain ⟨-, -, -, -, hlength⟩ := h
  exact hlength

theorem Agreed.unique {size : Nat} {offers : Nat → Option Offer} {replies replies' : List Payload}
    (hsize : 0 < size) (h : Agreed size offers replies) (h' : Agreed size offers replies') :
    replies = replies' := by
  obtain ⟨common, hcommon, -, hcombine, -⟩ := h
  obtain ⟨common', hcommon', -, hcombine', -⟩ := h'
  have heq : ∀ q < size, common q = common' q := fun q hq =>
    Option.some.inj ((hcommon q hq).symm.trans (hcommon' q hq))
  have hlist : (List.range size).map (fun q => (common q).contribution) =
      (List.range size).map fun q => (common' q).contribution :=
    List.map_congr_left fun q hq => by rw [heq q (List.mem_range.mp hq)]
  rw [heq 0 hsize, hlist, hcombine'] at hcombine
  exact (Except.ok.inj hcombine).symm

/-! ## Collecting -/

theorem mem_peers {size p : Nat} : p ∈ peers size ↔ 0 < p ∧ p < size := by
  simp only [peers, List.mem_range'_1]
  omega

theorem next_peer {n m peer : Nat} {rest : List Nat} (h : peer :: rest = List.range' (n + 1) (m - n)) :
    peer = n + 1 ∧ n < m ∧ rest = List.range' (n + 1 + 1) (m - (n + 1)) := by
  obtain ⟨k, hk⟩ : ∃ k, m - n = k + 1 := by
    cases hk : m - n with
    | zero => simp [hk] at h
    | succ k => exact ⟨k, rfl⟩
  rw [hk, List.range'_succ, List.cons.injEq] at h
  refine ⟨h.1, by omega, ?_⟩
  rw [h.2, ← Nat.sub_sub, hk, Nat.add_sub_cancel]

theorem gathered_map_ok (payloads : List Payload) : gathered (payloads.map .ok) = .ok payloads := by
  induction payloads with
  | nil => rfl
  | cons payload rest ih => simp [gathered, ih, Except.map]

theorem eq_map_ok_of_gathered {received : List (Except GroupError Payload)} {payloads : List Payload}
    (h : gathered received = .ok payloads) : received = payloads.map .ok := by
  induction received generalizing payloads with
  | nil =>
    cases h
    rfl
  | cons x rest ih =>
    cases x with
    | error e => cases h
    | ok payload =>
      cases hrest : gathered rest with
      | error e => simp [gathered, hrest, Except.map] at h
      | ok ps =>
        simp only [gathered, hrest, Except.map, Except.ok.injEq] at h
        rw [ih hrest, ← h]
        rfl

theorem combined_eq_ok_iff {size : Nat} {combine : Combine} {payloads replies : List Payload} :
    combined size combine (.ok payloads) = .ok replies ↔
      combine payloads = .ok replies ∧ replies.length = size := by
  simp only [combined, bind, Except.bind]
  cases combine payloads with
  | error e => simp [throw, throwThe, MonadExceptOf.throw]
  | ok found =>
    simp only [pure, Except.pure, Except.ok.injEq]
    split <;> rename_i h
    · simp only [Except.ok.injEq, iff_self_and]
      rintro rfl
      exact h
    · simp only [throw, throwThe, MonadExceptOf.throw, reduceCtorEq, false_iff, not_and]
      rintro rfl
      exact h

theorem outcome_eq_ok_iff {size : Nat} {ρ : Offer} {received : List (Except GroupError Payload)}
    {replies : List Payload} :
    Place.outcome size ρ received = .ok replies ↔ ∃ payloads : List Payload,
      received = payloads.map .ok ∧ ρ.combine (ρ.contribution :: payloads) = .ok replies ∧
        replies.length = size := by
  unfold Place.outcome
  constructor
  · intro h
    cases hg : gathered received with
    | error e => simp [hg, combined, Except.map, bind, Except.bind] at h
    | ok payloads =>
      rw [hg] at h
      exact ⟨payloads, eq_map_ok_of_gathered hg, combined_eq_ok_iff.mp h⟩
  · rintro ⟨payloads, rfl, h⟩
    rw [gathered_map_ok]
    exact combined_eq_ok_iff.mpr h

/-! ## Frames -/

theorem checked_eq_ok_iff {peer : Nat} {step : Step} {f : Frame} {payload : Payload} :
    checked peer step f = .ok payload ↔
      f.operation = step.operation ∧ f.sequence = step.sequence ∧ f.payload = payload := by
  unfold checked
  split <;> rename_i h
  · simp [h]
  · simp only [reduceCtorEq, false_iff, not_and]
    intro h1 h2
    exact absurd ⟨h1, h2⟩ h

theorem opened_eq_ok_iff {found payload : Payload} :
    opened found = .ok payload ↔ found = payload ∧ ∀ reason, payload ≠ .failure reason := by
  cases found with
  | failure reason =>
    simp only [opened, reduceCtorEq, false_iff, not_and]
    rintro rfl h
    exact h reason rfl
  | empty | words _ | reals _ =>
    simp only [opened, Except.ok.injEq, iff_self_and]
    rintro rfl reason
    simp

theorem replied_eq_ok_iff {k : Nat} {ρ : Offer} {f : Frame} {payload : Payload} :
    replied k ρ f = .ok payload ↔ f.operation = ρ.operation ∧ f.sequence = k ∧
      f.payload = payload ∧ ∀ reason, payload ≠ .failure reason := by
  unfold replied
  cases hc : checked 0 (ρ.step k) f with
  | error e =>
    simp only [Except.bind, reduceCtorEq, false_iff]
    rintro ⟨h1, h2, h3, -⟩
    rw [checked_eq_ok_iff.mpr ⟨h1, h2, h3⟩] at hc
    cases hc
  | ok found =>
    obtain ⟨h1, h2, rfl⟩ := checked_eq_ok_iff.mp hc
    have h1 : f.operation = ρ.operation := h1
    have h2 : f.sequence = k := h2
    simp [Except.bind, opened_eq_ok_iff, h1, h2]

/-! ## Answering -/

theorem mem_outgoing {size : Nat} {replies : List Payload} {peer : Nat} {payload : Payload}
    (h : (peer, payload) ∈ Place.outgoing size replies) :
    0 < peer ∧ peer < size ∧ replies[peer]? = some payload := by
  rw [Place.outgoing, List.mem_reverse, List.mem_iff_getElem?] at h
  obtain ⟨i, hi⟩ := h
  rw [List.getElem?_zip_eq_some] at hi
  obtain ⟨hpeer, hpayload⟩ := hi
  obtain ⟨hlt, hpeer⟩ := List.getElem?_eq_some_iff.mp hpeer
  simp only [peers, List.length_range', List.getElem_range', Nat.one_mul] at hlt hpeer
  rw [List.getElem?_drop] at hpayload
  subst hpeer
  exact ⟨by omega, by omega, hpayload⟩

theorem map_fst_outgoing {size : Nat} {replies : List Payload} (h : replies.length = size) :
    (Place.outgoing size replies).map Prod.fst = (peers size).reverse := by
  rw [Place.outgoing, List.map_reverse, List.map_fst_zip]
  simp [peers, h]

/-- An answer goes to every lower rank only after it went to the higher ones. -/
theorem peers_split {size peer : Nat} {sent unsent : List Nat}
    (h : (peers size).reverse = sent ++ peer :: unsent) :
    (∀ p ∈ sent, peer < p) ∧ (∀ p ∈ unsent, p < peer) ∧ (sent ++ [peer]).Nodup := by
  have hdown : (peers size).reverse.Pairwise (· > ·) :=
    List.pairwise_reverse.mpr (List.pairwise_lt_range' 1)
  rw [h, List.pairwise_append] at hdown
  obtain ⟨hsent, hunsent, hacross⟩ := hdown
  refine ⟨fun p hp => hacross p hp peer List.mem_cons_self, (List.pairwise_cons.mp hunsent).1, ?_⟩
  have hnodup : (sent ++ [peer] ++ unsent).Nodup := by
    rw [List.append_assoc, List.singleton_append, ← h]
    exact (List.reverse_perm _).nodup_iff.mpr List.nodup_range'
  exact hnodup.sublist (List.sublist_append_left _ _)

end Lagmeter.Exchange
