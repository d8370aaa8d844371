import Lagmeter.Group.Frame
import Mathlib.Tactic.ByContra

/-!
# The root and one peer

Two queues lie between the root and a peer: contributions go up, answers go down. How many
exchanges each end has been through settles what lies in them, which is one frame at most as long
as both ends take part. Each call of an end has its own lemma here.
-/

namespace Lagmeter

/-- How many contributions of a peer the root has collected, and how many it has answered. -/
structure RootCount where
  here : Bool
  collected : Nat
  answered : Nat

/-- How many contributions a peer has sent, and how many answers it has taken. -/
structure PeerCount where
  here : Bool
  sent : Nat
  taken : Nat

/-- What the counts of the two ends say about the queues between them. `Up` and `Down` say which
frames belong to an exchange. -/
structure Coupling (Up Down : Nat → Frame → Prop) (root : RootCount) (peer : PeerCount)
    (up down : List Frame) : Prop where
  order : root.answered ≤ root.collected
  chain : root.here → peer.here → peer.taken ≤ root.answered ∧ root.collected ≤ peer.sent ∧
    peer.sent ≤ peer.taken + 1
  up_some : root.here → root.collected < peer.sent → ∃ f, up = [f] ∧ Up root.collected f
  up_nil : root.here → peer.sent ≤ root.collected → up = []
  /-- What a root that has left did not take belongs to exchanges it never led. -/
  up_late : ¬ root.here → ∀ f ∈ up, ∃ i, root.collected ≤ i ∧ Up i f
  down_some : peer.here → peer.taken < root.answered → ∃ f, down = [f] ∧ Down peer.taken f
  down_nil : (peer.here → root.answered ≤ peer.taken) → down = []
  /-- A peer that has left owes nothing. -/
  late : root.here → ¬ peer.here → peer.sent ≤ root.answered
  /-- A root that has left owes at most the answer that it sent last. -/
  last : ¬ root.here → peer.here → peer.taken < root.answered →
    peer.sent = peer.taken + 1 ∧ root.answered = peer.taken + 1

namespace Coupling

variable {Up Down Up' Down' : Nat → Frame → Prop} {root : RootCount} {peer : PeerCount}
  {up down : List Frame}

theorem even (root peer : Bool) (n : Nat) : Coupling Up Down ⟨root, n, n⟩ ⟨peer, n, n⟩ [] [] where
  order := Nat.le_refl n
  chain _ _ := ⟨Nat.le_refl n, Nat.le_refl n, Nat.le_succ n⟩
  up_some _ h := absurd h (Nat.lt_irrefl n)
  up_nil _ _ := rfl
  up_late _ _ h := by cases h
  down_some _ h := absurd h (Nat.lt_irrefl n)
  down_nil _ := rfl
  late _ _ := Nat.le_refl n
  last _ _ h := absurd h (Nat.lt_irrefl n)

theorem mono (h : Coupling Up Down root peer up down) (hUp : ∀ i f, Up i f → Up' i f)
    (hDown : ∀ i f, Down i f → Down' i f) : Coupling Up' Down' root peer up down where
  order := h.order
  chain := h.chain
  up_some hr hlt := by
    obtain ⟨f, hup, hf⟩ := h.up_some hr hlt
    exact ⟨f, hup, hUp _ _ hf⟩
  up_nil := h.up_nil
  up_late hr f hf := by
    obtain ⟨i, hi, hUpf⟩ := h.up_late hr f hf
    exact ⟨i, hi, hUp _ _ hUpf⟩
  down_some hp hlt := by
    obtain ⟨f, hdown, hf⟩ := h.down_some hp hlt
    exact ⟨f, hdown, hDown _ _ hf⟩
  down_nil := h.down_nil
  late := h.late
  last := h.last

theorem of_mem_up (h : Coupling Up Down root peer up down) {f : Frame} (hf : f ∈ up) :
    ∃ i, root.collected ≤ i ∧ Up i f := by
  by_cases hr : root.here
  · by_cases hlt : root.collected < peer.sent
    · obtain ⟨f', rfl, hUp⟩ := h.up_some hr hlt
      rw [List.mem_singleton.mp hf]
      exact ⟨_, Nat.le_refl _, hUp⟩
    · rw [h.up_nil hr (Nat.le_of_not_lt hlt)] at hf
      cases hf
  · exact h.up_late hr f hf

theorem of_mem_down (h : Coupling Up Down root peer up down) {f : Frame} (hf : f ∈ down) :
    Down peer.taken f := by
  by_cases howed : peer.here → root.answered ≤ peer.taken
  · rw [h.down_nil howed] at hf
    cases hf
  · simp only [not_forall, Nat.not_le] at howed
    obtain ⟨hp, hlt⟩ := howed
    obtain ⟨f', rfl, hDown⟩ := h.down_some hp hlt
    rw [List.mem_singleton.mp hf]
    exact hDown

/-! ## Calls of the peer -/

theorem contribute (h : Coupling Up Down root peer up down) (hr : root.here) (hp : peer.here)
    (hidle : peer.sent = peer.taken) {f : Frame} (hf : Up peer.sent f) :
    Coupling Up Down root { peer with sent := peer.sent + 1 } (up ++ [f]) down := by
  have ⟨hta, hcs, _⟩ := h.chain hr hp
  have horder := h.order
  have hc : root.collected = peer.sent := by omega
  constructor
  case order => exact horder
  case chain => simp only; omega
  case up_some =>
    intro _ _
    refine ⟨f, ?_, hc ▸ hf⟩
    rw [h.up_nil hr (Nat.le_of_eq hc.symm), List.nil_append]
  case up_nil => simp only; omega
  case up_late => exact fun h' => absurd hr h'
  case down_some => exact h.down_some
  case down_nil => exact h.down_nil
  case late => exact fun _ h' => absurd hp h'
  case last => exact fun h' => absurd hr h'

theorem answered_le_of_idle (h : Coupling Up Down root peer up down) (hr : ¬ root.here)
    (hp : peer.here) (hidle : peer.sent = peer.taken) : root.answered ≤ peer.taken := by
  apply Nat.le_of_not_lt
  intro hlt
  have := h.last hr hp hlt
  omega

theorem answered_le_of_empty (h : Coupling Up Down root peer up []) (hp : peer.here) :
    root.answered ≤ peer.taken := by
  apply Nat.le_of_not_lt
  intro hlt
  obtain ⟨f, hf, -⟩ := h.down_some hp hlt
  cases hf

theorem giveUp (h : Coupling Up Down root peer up down) (hr : ¬ root.here)
    (hdone : peer.here → root.answered ≤ peer.taken) (sent taken : Nat) (htaken : peer.taken ≤ taken) :
    Coupling Up Down root { peer with sent, taken } up down := by
  constructor
  case order => exact h.order
  case chain => exact fun h' => absurd h' hr
  case up_some => exact fun h' => absurd h' hr
  case up_nil => exact fun h' => absurd h' hr
  case up_late => exact h.up_late
  case down_some => intro hp hlt; have := hdone hp; simp only at hlt; omega
  case down_nil => exact fun _ => h.down_nil hdone
  case late => exact fun h' => absurd h' hr
  case last => intro _ hp hlt; have := hdone hp; simp only at hlt; omega

theorem take (h : Coupling Up Down root peer up down) (hp : peer.here) {f : Frame}
    (hf : down.head? = some f) : Down peer.taken f ∧
      Coupling Up Down root { peer with taken := peer.taken + 1 } up down.tail := by
  have hlt : peer.taken < root.answered := by
    apply Nat.lt_of_not_le
    intro hle
    rw [h.down_nil fun _ => hle] at hf
    cases hf
  obtain ⟨f', rfl, hDown⟩ := h.down_some hp hlt
  cases hf
  refine ⟨hDown, ?_⟩
  have horder := h.order
  have hlast : root.answered = peer.taken + 1 := by
    by_cases hr : root.here = true
    · have := h.chain hr hp
      omega
    · exact (h.last hr hp hlt).2
  constructor
  case order => exact horder
  case chain => intro hr _; have := h.chain hr hp; simp only; omega
  case up_some => exact h.up_some
  case up_nil => exact h.up_nil
  case up_late => exact h.up_late
  case down_some => simp only; omega
  case down_nil => exact fun _ => rfl
  case late => exact fun _ h' => absurd hp h'
  case last => simp only; omega

theorem peerLeaves (h : Coupling Up Down root peer up down) (hp : peer.here)
    (hidle : peer.sent = peer.taken) :
    Coupling Up Down root { peer with here := false } up down := by
  have horder := h.order
  -- Nothing is on its way down to an idle peer, whether or not the root is still there.
  have howed : root.answered ≤ peer.taken := by
    by_cases hr : root.here = true
    · have := h.chain hr hp
      omega
    · exact h.answered_le_of_idle hr hp hidle
  constructor
  case order => exact horder
  case chain => nofun
  case up_some => exact h.up_some
  case up_nil => exact h.up_nil
  case up_late => exact h.up_late
  case down_some => nofun
  case down_nil => exact fun _ => h.down_nil fun _ => howed
  case late => intro hr _; have := h.chain hr hp; simp only; omega
  case last => nofun

/-! ## Calls of the root -/

theorem collect (h : Coupling Up Down root peer up down) (hr : root.here) {f : Frame}
    (hf : up.head? = some f) : Up root.collected f ∧ Coupling Up Down
      { root with collected := root.collected + 1 } peer up.tail down := by
  have hlt : root.collected < peer.sent := by
    apply Nat.lt_of_not_le
    intro hle
    rw [h.up_nil hr hle] at hf
    cases hf
  have horder := h.order
  obtain ⟨f', rfl, hUp⟩ := h.up_some hr hlt
  cases hf
  refine ⟨hUp, ?_⟩
  have hp : peer.here := by
    by_contra hp
    have := h.late hr hp
    omega
  have hchain := h.chain hr hp
  constructor
  case order => simp only; omega
  case chain => simp only; omega
  case up_some => simp only; omega
  case up_nil => exact fun _ _ => rfl
  case up_late => exact fun h' => absurd hr h'
  case down_some => exact h.down_some
  case down_nil => exact h.down_nil
  case late => exact h.late
  case last => exact fun h' => absurd hr h'

theorem miss (h : Coupling Up Down root peer up down) (hr : root.here) (hp : ¬ peer.here)
    (hup : up = []) :
    Coupling Up Down { root with collected := root.collected + 1 } peer up down := by
  have horder := h.order
  have hlate := h.late hr hp
  constructor
  case order => simp only; omega
  case chain => exact fun _ h' => absurd h' hp
  case up_some => simp only; omega
  case up_nil => exact fun _ _ => hup
  case up_late => exact fun h' => absurd hr h'
  case down_some => exact h.down_some
  case down_nil => exact h.down_nil
  case late => exact h.late
  case last => exact fun h' => absurd hr h'

theorem answer (h : Coupling Up Down root peer up down) (hr : root.here) (hp : peer.here)
    (howed : root.answered < root.collected) {f : Frame} (hf : Down root.answered f) :
    Coupling Up Down { root with answered := root.answered + 1 } peer up (down ++ [f]) := by
  have hchain := h.chain hr hp
  have hnext : root.answered = peer.taken := by omega
  constructor
  case order => simp only; omega
  case chain => simp only; omega
  case up_some => exact h.up_some
  case up_nil => exact h.up_nil
  case up_late => exact fun h' => absurd hr h'
  case down_some =>
    intro _ _
    refine ⟨f, ?_, hnext ▸ hf⟩
    rw [h.down_nil fun _ => Nat.le_of_eq hnext, List.nil_append]
  case down_nil => intro h'; have := h' hp; simp only at this; omega
  case late => exact fun _ h' => absurd hp h'
  case last => exact fun h' => absurd hr h'

theorem skip (h : Coupling Up Down root peer up down) (hr : root.here) (hp : ¬ peer.here)
    (howed : root.answered < root.collected) :
    Coupling Up Down { root with answered := root.answered + 1 } peer up down := by
  have hlate := h.late hr hp
  constructor
  case order => simp only; omega
  case chain => exact fun _ h' => absurd h' hp
  case up_some => exact h.up_some
  case up_nil => exact h.up_nil
  case up_late => exact fun h' => absurd hr h'
  case down_some => exact fun h' => absurd h' hp
  case down_nil => exact fun _ => h.down_nil fun h' => absurd h' hp
  case late => simp only; omega
  case last => exact fun h' => absurd hr h'

theorem rootLeaves (h : Coupling Up Down root peer up down) (hr : root.here)
    (hidle : root.answered = root.collected) :
    Coupling Up Down { root with here := false } peer up down := by
  constructor
  case order => exact h.order
  case chain => nofun
  case up_some => nofun
  case up_nil => nofun
  case up_late => exact fun _ f hf => h.of_mem_up hf
  case down_some => exact h.down_some
  case down_nil => exact h.down_nil
  case late => nofun
  case last => intro _ hp hlt; have := h.chain hr hp; simp only at hlt ⊢; omega

end Coupling

end Lagmeter
