import Lagmeter.Proofs.Group.AllOrNothing
import Lagmeter.Proofs.Group.Reference
import Mathlib.Data.Finset.Basic

/-!
# Who takes part

Ranks may be missing from the start. If the root is there, then a rank that is through an exchange
knows that all ranks came to it. If somebody is missing, then all exchanges fail.
-/

namespace Lagmeter

/-! ## Lines at rest -/

namespace Lines

/-- Nothing is on its way between `size` ranks, and all take part but those that are missing. -/
def Calm (size : Nat) (missing : Finset Nat) (l : Lines) : Prop :=
  ∀ a < size, (l.isOpen a = true ↔ a ∉ missing) ∧ ∀ b < size, l.queue a b = []

theorem calm_empty {size : Nat} {l : Lines} : l.Calm size ∅ ↔ l.Fresh size := by
  simp [Calm, Fresh]

/-- Frames are on their way only between the root and its peers. -/
def Starry (size : Nat) (l : Lines) : Prop :=
  ∀ a < size, ∀ b < size, (a = 0 ↔ b = 0) → l.queue a b = []

variable {size rank : Nat} {l l' : Lines}

theorem Calm.starry {missing : Finset Nat} (h : l.Calm size missing) : l.Starry size :=
  fun a ha b hb _ => (h a ha).2 b hb

theorem Starry.allows (h : l.Starry size) {call : LinkCall} {a : call.Answer}
    (hallows : l.Allows size rank call a l')
    (hsend : ∀ peer f, call = .send peer f → ¬ (rank = 0 ↔ peer = 0)) : l'.Starry size := by
  intro x hx y hy hxy
  cases hallows with
  | sent peer f _ _ =>
    rw [queue_push_of_ne]
    · exact h x hx y hy hxy
    · rintro ⟨rfl, rfl⟩
      exact hsend y f rfl hxy
  | received peer f _ _ _ =>
    have hempty := h x hx y hy hxy
    simp only [pop]
    split
    · rw [hempty, List.tail_nil]
    · exact hempty
  | _ => exact h x hx y hy hxy

/-- Lines as a carrier of their own. -/
abbrev carrier (size : Nat) : Carrier where
  State := Lines
  Answers l rank call a l' := l.Allows size rank call a l'

theorem faithful (size : Nat) : (carrier size).Faithful size id where
  sound _ h := h
  live _ h := ⟨_, _, h⟩

end Lines

/-! ## How far the others are -/

theorem Exchange.Place.rootCount_le (p q n : Nat) (place : Place) :
    (place.rootCount p n).answered ≤ (place.rootCount q n).collected ∧
      (place.rootCount q n).collected ≤ n + 1 := by
  cases place <;> simp only [rootCount, beyond] <;> (repeat' split) <;> omega

theorem Exchange.Place.peerCount_le (n : Nat) (place : Place) : (place.peerCount n).sent ≤ n + 1 := by
  cases place <;> simp only [peerCount] <;> omega

namespace Station

theorem answered_le_collected (p q n : Nat) (w : Station) :
    (w.rootCount p n).answered ≤ (w.rootCount q n).collected := by
  cases w with
  | within place => exact (place.rootCount_le p q n).1
  | between | gone => exact Nat.le_refl n

end Station

namespace Assembly

open Exchange

variable {C : Carrier} {J : Interface} {α : Type} {g : Roster} {base : Nat}
  {s : Assembly C J α} {l : Lines} {w : Nat → Station}

section

variable (h : InStep g base s l w) {q : Nat} (hq : q < g.size)

include h hq

theorem InStep.results_le_entered : (s.rank q).results.length ≤ (s.rank q).entered.length ∧
    ∀ place, w q = .within place →
      (s.rank q).entered.length = (s.rank q).results.length + 1 := by
  have hstands := (h.standing q hq).stands
  cases hw : w q with
  | between =>
    rw [hw] at hstands
    exact ⟨Nat.le_of_eq hstands.2.symm, fun _ hw => by cases hw⟩
  | within place =>
    rw [hw] at hstands
    obtain ⟨past, ρ, next, hentered, hpast, -⟩ := hstands
    rw [hentered, List.length_append, hpast, List.length_singleton]
    exact ⟨Nat.le_succ _, fun _ _ => rfl⟩
  | gone => exact ⟨Nat.le_of_eq (h.left q hq hw).symm, fun _ hw => by cases hw⟩

theorem InStep.sent_le_entered :
    ((w q).peerCount (s.rank q).results.length).sent ≤ (s.rank q).entered.length := by
  have ⟨hle, hwithin⟩ := h.results_le_entered hq
  cases hw : w q with
  | within place =>
    rw [hwithin place hw]
    exact place.peerCount_le _
  | between | gone => exact hle

end

theorem InStep.collected_le_entered (h : InStep g base s l w) (hsize : 0 < g.size) (p : Nat) :
    ((w 0).rootCount p (s.rank 0).results.length).collected ≤ (s.rank 0).entered.length := by
  have ⟨hle, hwithin⟩ := h.results_le_entered hsize
  cases hw : w 0 with
  | within place =>
    rw [hwithin place hw]
    exact (place.rootCount_le p p _).2
  | between | gone => exact hle

theorem InStep.entered_of_result (h : InStep g base s l w) {p q i : Nat} (hp : p < g.size)
    (hq : q < g.size) (hroot : w 0 ≠ .gone) (hwp : w p ≠ .gone) (hwq : w q ≠ .gone)
    (hi : i < (s.rank p).results.length) : i < (s.rank q).entered.length := by
  have hsize : 0 < g.size := by omega
  have hchain {r : Nat} (hr : r < g.size) (hr0 : r ≠ 0) (hwr : w r ≠ .gone) :=
    (h.coupled r hr hr0).chain (Station.rootCount_here.mpr hroot) (Station.peerCount_here.mpr hwr)
  -- The root has collected contributions to exchange `i` from all ranks.
  have hcollected (r : Nat) : i < ((w 0).rootCount r (s.rank 0).results.length).collected := by
    by_cases hp0 : p = 0
    · subst hp0
      exact Nat.lt_of_lt_of_le hi Station.le_collected
    · calc i < (s.rank p).results.length := hi
        _ ≤ ((w p).peerCount (s.rank p).results.length).taken := Station.le_taken
        _ ≤ ((w 0).rootCount p (s.rank 0).results.length).answered := (hchain hp hp0 hwp).1
        _ ≤ _ := Station.answered_le_collected p r _ (w 0)
  by_cases hq0 : q = 0
  · subst hq0
    exact Nat.lt_of_lt_of_le (hcollected 0) (h.collected_le_entered hsize 0)
  · exact Nat.lt_of_lt_of_le (hcollected q)
      (Nat.le_trans (hchain hq hq0 hwq).2.1 (h.sent_le_entered hq))

theorem InStep.granted (h : InStep g base s l w) {all : Nat → Request}
    (hgranted : Request.Granted g all) {i : Nat}
    (hoffers : ∀ q < g.size, s.offers i q = some ((all q).offer (g.member q))) {r : Nat}
    (hr : r < g.size) {x : Except GroupError Payload} (hx : (s.rank r).results[i]? = some x) :
    x.bind ((all r).finish (g.member r)) = .ok ((all r).reference g.size all r) := by
  obtain ⟨replies, hagreed, hreplies⟩ := hgranted
  have hagreed' : Agreed g.size (s.offers i) replies :=
    hagreed.mono fun q hq ρ hρ => by rw [hoffers q hq]; exact hρ
  obtain ⟨payload, hreply, hfinish⟩ := hreplies r hr
  obtain ⟨payload', hreply', rfl⟩ := (h.fates r hr i x hx).eq_ok hagreed' (by omega) fun ρ hρ => by
    rw [hoffers 0 (by omega)] at hρ
    cases hρ
    exact Request.plain_offer _ _
  obtain rfl := Option.some.inj (hreply.symm.trans hreply')
  exact hfinish

theorem InStep.error_of_missing (h : InStep g base s l w) {i d : Nat} (hd : d < g.size)
    (hnone : s.offers i d = none) {r : Nat} (hr : r < g.size) {x : Except GroupError Payload}
    (hx : (s.rank r).results[i]? = some x) : ∃ e, x = .error e := by
  rcases h.fates r hr i x hx with ⟨replies, _, ⟨common, hcommon, -⟩, -⟩ | ⟨-, he⟩
  · rw [hcommon d hd] at hnone
    cases hnone
  · exact he

/-! ## Beginnings and steps -/

/-- The ranks that are missing have left, and all others are at the start of their plans. -/
def startWithout (missing : Finset Nat) (t : C.State) (plans : Nat → Plan J α) (base : Nat) :
    Assembly C J α :=
  ⟨t, fun r => { stage := if r ∈ missing then .gone none else .free (plans r), sequence := base }⟩

theorem inStep_startWithout {missing : Finset Nat} {t : C.State} {plans : Nat → Plan J α}
    (hl : l.Calm g.size missing) :
    InStep g base (startWithout missing t plans base) l
      fun r => if r ∈ missing then .gone else .between where
  standing q _ := by
    refine ⟨rfl, ?_⟩
    by_cases hq : q ∈ missing
    · simp [hq, Rank.Stands, startWithout]
    · simp [hq, Rank.Stands, startWithout]
  isOpen q hq := by simp [(hl q hq).1]
  coupled p hp hp0 := by
    rw [Coupled, (hl p hp).2 0 (by omega), (hl 0 (by omega)).2 p hp]
    have hcount (r q : Nat) : (if r ∈ missing then Station.gone else .between).rootCount q 0 =
        ⟨decide (r ∉ missing), 0, 0⟩ := by by_cases hr : r ∈ missing <;> simp [hr, Station.rootCount]
    have hcount' (r : Nat) : (if r ∈ missing then Station.gone else .between).peerCount 0 =
        ⟨decide (r ∉ missing), 0, 0⟩ := by by_cases hr : r ∈ missing <;> simp [hr, Station.peerCount]
    exact hcount 0 p ▸ hcount' p ▸ .even _ _ 0
  placed q _ place hw := by
    by_cases hq : q ∈ missing <;> simp [hq] at hw
  fates q _ i x hi := by simp [startWithout] at hi
  left q _ _ := rfl

theorem InStep.starry {lines : C.State → Lines} (hC : C.Faithful g.size lines)
    (h : InStep g base s (lines s.carrier) w) {s' : Assembly C J α} (hstep : Advance g s s')
    (hstar : (lines s.carrier).Starry g.size) : (lines s'.carrier).Starry g.size := by
  obtain ⟨r, hr, t', x', hact, rfl⟩ := hstep
  obtain ⟨w', -, hshift⟩ := (h.standing r hr).shift hact
  generalize hwr : w r = wr at hshift
  cases hshift with
  | talk ρ place place' call a _ _ hρ hmove ha hentered hresults =>
    refine hstar.allows (hC.sound hr ha) ?_
    have hplaced := h.placed r hr place hwr
    rintro peer f rfl
    cases hmove with
    | contribute | unheard e =>
      have hr0 : r ≠ 0 := hplaced
      omega
    | answer replies _ payload rest | unanswered replies _ payload rest e =>
      obtain ⟨rfl, hagreed, hsuffix⟩ := hplaced
      obtain ⟨-, hpeer0, -⟩ := next_answered hagreed.length_eq hsuffix
      omega
    | tell e _ rest | untold e cause _ rest event =>
      obtain ⟨rfl, -, hsuffix⟩ := hplaced
      obtain ⟨-, hpeer0, -⟩ := next_told hsuffix
      omega
  | leave _ _ ha hentered hresults => exact hstar.allows (hC.sound hr ha) nofun
  | enter | conclude | other => exact hstar

end Assembly

end Lagmeter
