import Lagmeter.Group.Mesh
import Lagmeter.Proofs.Group.Carrier

/-!
# The mesh is a faithful carrier

The queues of a mesh lie one after the other in an array. Seen from outside they are `Lines`: a
call on one pair of ranks leaves the queues of all other pairs as they are.
-/

namespace Lagmeter.Mesh

/-- The arrays of a mesh have room for every pair of ranks and for every rank. -/
structure Fits (size : Nat) (m : Mesh) : Prop where
  size_eq : m.size = size
  queues : m.queues.size = size * size
  isOpen : m.isOpen.size = size

variable {size : Nat} {m : Mesh}

theorem fits_ofSize (size : Nat) : Fits size (ofSize size) := ⟨rfl, by simp [ofSize], by simp [ofSize]⟩

/-! ## Queues -/

theorem slot_lt {a b : Nat} (ha : a < size) (hb : b < size) : a * size + b < size * size := by
  calc a * size + b < a * size + size := by omega
    _ = (a + 1) * size := by rw [Nat.add_mul, Nat.one_mul]
    _ ≤ size * size := Nat.mul_le_mul_right _ ha

theorem slot_inj {a b x y : Nat} (hb : b < size) (hy : y < size)
    (h : a * size + b = x * size + y) : a = x ∧ b = y := by
  have hpos : 0 < size := by omega
  have hdiv : ∀ c d, d < size → (c * size + d) / size = c := by
    intro c d hd
    rw [Nat.mul_comm, Nat.mul_add_div hpos, Nat.div_eq_of_lt hd, Nat.add_zero]
  have hax : a = x := by rw [← hdiv a b hb, ← hdiv x y hy, h]
  subst hax
  exact ⟨rfl, by omega⟩

theorem queue_setQueue (hm : Fits size m) {a b x y : Nat} (ha : a < size) (hb : b < size)
    (hy : y < size) (frames : List Frame) :
    (m.setQueue a b frames).queue x y = if x = a ∧ y = b then frames else m.queue x y := by
  have hlt : a * m.size + b < m.queues.size := by
    rw [hm.size_eq, hm.queues]
    exact slot_lt ha hb
  simp only [queue, setQueue, Array.getD_eq_getD_getElem?, Array.getElem?_setIfInBounds]
  by_cases hxy : x = a ∧ y = b
  · obtain ⟨rfl, rfl⟩ := hxy
    simp [hlt]
  · rw [if_neg hxy, if_neg]
    intro h
    rw [hm.size_eq] at h
    obtain ⟨rfl, rfl⟩ := slot_inj hb hy h
    exact hxy ⟨rfl, rfl⟩

theorem Fits.setQueue (hm : Fits size m) (a b : Nat) (frames : List Frame) :
    Fits size (m.setQueue a b frames) :=
  ⟨hm.size_eq, by simp [Mesh.setQueue, hm.queues], hm.isOpen⟩

theorem openAt_close (hm : Fits size m) {r : Nat} (hr : r < size) (a : Nat) :
    (m.close r).openAt a = if a = r then false else m.openAt a := by
  simp only [openAt, close, Array.getD_eq_getD_getElem?, Array.getElem?_setIfInBounds]
  by_cases ha : a = r
  · subst ha
    simp [hm.isOpen, hr]
  · simp [ha, Ne.symm ha]

theorem Fits.close (hm : Fits size m) (r : Nat) : Fits size (m.close r) :=
  ⟨hm.size_eq, hm.queues, by simp [Mesh.close, hm.isOpen]⟩

/-! ## The carrier -/

abbrev carrier (size : Nat) : Carrier where
  State := { m : Mesh // Fits size m }
  Answers m rank call a m' := ∃ raised, m.1.perform rank call = .answered a m'.1 raised

def lines (size : Nat) (m : (carrier size).State) : Lines where
  queue a b := if a < size ∧ b < size then m.1.queue a b else []
  isOpen := m.1.openAt

def fresh (size : Nat) : (carrier size).State := ⟨ofSize size, fits_ofSize size⟩

theorem queue_fresh (size a b : Nat) : (lines size (fresh size)).queue a b = [] := by
  simp only [lines, fresh, queue, ofSize, Array.getD_eq_getD_getElem?, Array.getElem?_replicate]
  split
  · split <;> rfl
  · rfl

theorem fresh_lines (size : Nat) : (lines size (fresh size)).Fresh size := by
  intro a ha
  refine ⟨?_, fun b _ => queue_fresh size a b⟩
  simp [lines, fresh, openAt, ofSize, Array.getD_eq_getD_getElem?, ha]

/-! ## Every call -/

theorem lines_setQueue_append (m : (carrier size).State) {a b : Nat} (ha : a < size) (hb : b < size)
    (f : Frame) (h : Fits size (m.1.setQueue a b (m.1.queue a b ++ [f]))) :
    lines size ⟨_, h⟩ = (lines size m).push a b f := by
  simp only [lines, Lines.push, Lines.mk.injEq]
  refine ⟨funext fun x => funext fun y => ?_, rfl⟩
  by_cases hxy : x < size ∧ y < size
  · simp only [hxy, and_self, if_true, queue_setQueue m.2 ha hb hxy.2]
    split <;> rename_i h
    · rw [h.1, h.2]
    · rfl
  · rw [if_neg hxy, if_neg hxy, if_neg]
    rintro ⟨rfl, rfl⟩
    exact hxy ⟨ha, hb⟩

theorem lines_setQueue_tail (m : (carrier size).State) {a b : Nat} (ha : a < size) (hb : b < size)
    {f : Frame} {frames : List Frame} (hf : m.1.queue a b = f :: frames)
    (h : Fits size (m.1.setQueue a b frames)) :
    lines size ⟨_, h⟩ = (lines size m).pop a b := by
  simp only [lines, Lines.pop, Lines.mk.injEq]
  refine ⟨funext fun x => funext fun y => ?_, rfl⟩
  by_cases hxy : x < size ∧ y < size
  · simp only [hxy, and_self, if_true, queue_setQueue m.2 ha hb hxy.2]
    split <;> rename_i h
    · rw [h.1, h.2, hf, List.tail_cons]
    · rfl
  · rw [if_neg hxy, if_neg hxy]
    split <;> rfl

theorem lines_close (m : (carrier size).State) {r : Nat} (hr : r < size)
    (h : Fits size (m.1.close r)) : lines size ⟨_, h⟩ = (lines size m).shut r := by
  simp only [lines, Lines.shut, Lines.mk.injEq]
  exact ⟨rfl, funext fun a => openAt_close m.2 hr a⟩

theorem checkPeer_eq_ok_iff (hm : Fits size m) {rank peer : Nat} :
    m.checkPeer rank peer = .ok () ↔ peer < size ∧ peer ≠ rank := by
  unfold checkPeer
  rw [hm.size_eq]
  split <;> rename_i h
  · simp only [reduceCtorEq, false_iff]
    omega
  · simp only [true_iff]
    omega

/-- What the mesh makes of a call is what its lines allow. It lets a rank wait only where they give
no answer. -/
def Obeys (size : Nat) (m : (carrier size).State) (rank : Nat) {call : LinkCall} :
    Reply call → Prop
  | .answered a next _ => ∃ h : Fits size next,
      (lines size m).Allows size rank call a (lines size ⟨next, h⟩)
  | .wait _ => ∀ a l, ¬ (lines size m).Allows size rank call a l

theorem obeys_send (m : (carrier size).State) {rank : Nat} (hr : rank < size) (peer : Nat)
    (f : Frame) : Obeys size m rank (m.1.perform rank (.send peer f)) := by
  simp only [perform, Mesh.send]
  cases hpeer : m.1.checkPeer rank peer with
  | error e =>
    refine ⟨m.2, .unsent peer f e (.inl fun h => ?_)⟩
    rw [(checkPeer_eq_ok_iff m.2).mpr h] at hpeer
    cases hpeer
  | ok _ =>
    have hpeer := (checkPeer_eq_ok_iff m.2).mp hpeer
    by_cases hopen : m.1.openAt rank = true ∧ m.1.openAt peer = true
    · simp only [hopen, Bool.and_self, if_true]
      refine ⟨m.2.setQueue _ _ _, ?_⟩
      rw [lines_setQueue_append m hr hpeer.1]
      exact .sent peer f hpeer hopen
    · have hshut : m.1.openAt rank = false ∨ m.1.openAt peer = false := by
        rw [← Bool.and_eq_false_iff, ← Bool.not_eq_true, Bool.and_eq_true]
        exact hopen
      simp only [Bool.and_eq_false_iff.mpr hshut]
      exact ⟨m.2, .unsent peer f _ (.inr hshut)⟩

theorem obeys_receive (m : (carrier size).State) {rank : Nat} (hr : rank < size) (peer : Nat) :
    Obeys size m rank (m.1.perform rank (.receive peer)) := by
  simp only [perform, Mesh.receive]
  cases hpeer : m.1.checkPeer rank peer with
  | error e =>
    refine ⟨m.2, .bereft peer e (.inl fun h => ?_)⟩
    rw [(checkPeer_eq_ok_iff m.2).mpr h] at hpeer
    cases hpeer
  | ok _ =>
    have hpeer := (checkPeer_eq_ok_iff m.2).mp hpeer
    have hqueue : (lines size m).queue peer rank = m.1.queue peer rank := by
      simp [lines, hpeer.1, hr]
    cases hopen : m.1.openAt rank with
    | false => exact ⟨m.2, .bereft peer _ (.inr (.inl hopen))⟩
    | true =>
      cases hq : m.1.queue peer rank with
      | cons f frames =>
        refine ⟨m.2.setQueue _ _ _, ?_⟩
        rw [lines_setQueue_tail m hpeer.1 hr hq]
        exact .received peer f hpeer hopen (by rw [hqueue, hq]; rfl)
      | nil =>
        rw [hq] at hqueue
        cases hother : m.1.openAt peer with
        | false => exact ⟨m.2, .bereft peer _ (.inr (.inr ⟨hqueue, hother⟩))⟩
        | true =>
          intro a l h
          cases h with
          | received _ f _ _ hf => simp [hqueue] at hf
          | bereft _ e h =>
            rcases h with h | h | ⟨-, h⟩
            · exact h hpeer
            · exact Bool.noConfusion (hopen.symm.trans h)
            · exact Bool.noConfusion (hother.symm.trans h)

theorem obeys_perform (m : (carrier size).State) {rank : Nat} (hr : rank < size) (call : LinkCall) :
    Obeys size m rank (m.1.perform rank call) := by
  cases call with
  | send peer f => exact obeys_send m hr peer f
  | receive peer => exact obeys_receive m hr peer
  | close =>
    refine ⟨m.2.close rank, ?_⟩
    rw [lines_close m hr]
    exact .closed _
  | leave =>
    refine ⟨m.2.close rank, ?_⟩
    rw [lines_close m hr]
    exact .left
  | log event => exact ⟨m.2, .told event⟩

theorem faithful (size : Nat) : (carrier size).Faithful size (lines size) where
  sound := by
    rintro m m' rank call a hr ⟨raised, h⟩
    have hobeys := obeys_perform m hr call
    rw [h] at hobeys
    exact hobeys.2
  live := by
    intro m rank call a l hr h
    have hobeys := obeys_perform m hr call
    cases hcall : m.1.perform rank call with
    | answered b next raised =>
      rw [hcall] at hobeys
      exact ⟨b, ⟨next, hobeys.1⟩, raised, hcall⟩
    | wait signal =>
      rw [hcall] at hobeys
      exact absurd h (hobeys a l)

end Lagmeter.Mesh
