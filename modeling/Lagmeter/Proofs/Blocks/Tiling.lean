import Lagmeter.Proofs.Blocks.Basic
import Mathlib.Order.Bounds.Basic
import Mathlib.Order.Fin.Basic

/-!
# Blocks tile a range

Each rank sees the split with its own number. What the ranks see agrees, and their blocks lie one after
the other without a gap, both in the dense order of the items and in the padded array.
-/

namespace Lagmeter.Blocks

/-- The places of all ranks fill the range below `length`, block after block. -/
structure Tiles {ranks : Nat} (place : Fin ranks → Nat → Except BlockError Nat)
    (size : Fin ranks → Nat) (length : Nat) : Prop where
  placed : ∀ r, ∀ i < size r, ∃ k < length, place r i = .ok k
  outside : ∀ r i, size r ≤ i → place r i = .error (.outOfBounds i (size r))
  /-- Every place of the range belongs to one index of one rank. -/
  unique : ∀ k < length, ∃! p : Fin ranks × Nat, place p.1 p.2 = .ok k
  increasing : ∀ r s i j k l, place r i = .ok k → place s j = .ok l →
    r < s ∨ r = s ∧ i < j → k < l
  /-- Where the block of a rank ends, that of the next rank begins. -/
  adjacent : ∃ start : Nat → Nat, start 0 = 0 ∧ start ranks = length ∧
    ∀ r : Fin ranks, start (r + 1) = start r + size r ∧ ∀ i < size r, place r i = .ok (start r + i)

/-! ## Consecutive blocks -/

section

variable {ranks : Nat} {size : Fin ranks → Nat} {start : Nat → Nat}
  (hstep : ∀ r : Fin ranks, start (r + 1) = start r + size r)

include hstep

theorem start_le {r s : Nat} (hrs : r ≤ s) (hs : s ≤ ranks) : start r ≤ start s := by
  induction hrs with
  | refl => exact Nat.le_refl _
  | step _ ih =>
    have hnext := hstep ⟨_, hs⟩
    have := ih (Nat.le_of_succ_le hs)
    simp only [Nat.succ_eq_add_one] at *
    omega

theorem lt_of_place_lt {r s : Fin ranks} {i j : Nat} (hi : i < size r)
    (h : r < s ∨ r = s ∧ i < j) : start r + i < start s + j := by
  rcases h with hlt | ⟨rfl, hij⟩
  · have hnext := hstep r
    have hle := start_le hstep (Nat.succ_le_of_lt (Fin.lt_def.mp hlt)) (Nat.le_of_lt s.isLt)
    simp only [Nat.succ_eq_add_one] at hle
    omega
  · omega

theorem exists_place (hzero : start 0 = 0) {n k : Nat} (hn : n ≤ ranks) (hk : k < start n) :
    ∃ r : Fin ranks, ∃ i < size r, start r + i = k := by
  induction n with
  | zero => omega
  | succ n ih =>
    by_cases hbefore : k < start n
    · exact ih (by omega) hbefore
    · have hnext := hstep ⟨n, hn⟩
      simp only at hnext
      exact ⟨⟨n, hn⟩, k - start n, by omega, by simp only; omega⟩

variable (size start) in
theorem tiles_of_start (place : Fin ranks → Nat → Except BlockError Nat) (hzero : start 0 = 0)
    (hplace : ∀ r i, place r i =
      if i < size r then .ok (start r + i) else .error (.outOfBounds i (size r))) :
    Tiles place size (start ranks) := by
  have hok {r i k} (h : place r i = .ok k) : i < size r ∧ k = start r + i := by
    rw [hplace] at h
    split at h
    · exact ⟨‹_›, (Except.ok.inj h).symm⟩
    · cases h
  have hinside {r i} (hi : i < size r) : place r i = .ok (start r + i) := by rw [hplace, if_pos hi]
  have hincreasing : ∀ r s i j k l, place r i = .ok k → place s j = .ok l →
      r < s ∨ r = s ∧ i < j → k < l := by
    intro r s i j k l hk hl h
    obtain ⟨hi, rfl⟩ := hok hk
    obtain ⟨-, rfl⟩ := hok hl
    exact lt_of_place_lt hstep hi h
  refine ⟨?_, ?_, ?_, hincreasing, start, hzero, rfl, fun r => ⟨hstep r, fun i => hinside⟩⟩
  · intro r i hi
    have hnext := hstep r
    have hle := start_le hstep (Nat.succ_le_of_lt r.isLt) (Nat.le_refl ranks)
    simp only [Nat.succ_eq_add_one] at hle
    exact ⟨start r + i, by omega, hinside hi⟩
  · intro r i hi
    rw [hplace, if_neg (Nat.not_lt.mpr hi)]
  · intro k hk
    obtain ⟨r, i, hi, rfl⟩ := exists_place hstep hzero (Nat.le_refl ranks) hk
    refine ⟨(r, i), hinside hi, ?_⟩
    rintro ⟨s, j⟩ hsj
    -- Of two places one comes first, and then their numbers differ.
    rcases lt_trichotomy s r with hlt | rfl | hlt
    · exact absurd (hincreasing _ _ _ _ _ _ hsj (hinside hi) (.inl hlt)) (Nat.lt_irrefl _)
    · obtain ⟨-, heq⟩ := hok hsj
      rw [Nat.add_left_cancel heq]
    · exact absurd (hincreasing _ _ _ _ _ _ (hinside hi) hsj (.inl hlt)) (Nat.lt_irrefl _)

end

/-! ## What each rank sees -/

/-- The split seen from rank `r`. -/
def view (total : Nat) {ranks : Nat} (r : Fin ranks) : Blocks := ⟨total, ranks, r, r.isLt⟩

theorem ofRank_eq_view (total : Nat) {ranks : Nat} (r : Fin ranks) :
    ofRank total ranks r = .ok (view total r) := by
  have hranks : ranks ≠ 0 := Nat.ne_zero_of_lt r.isLt
  simp [ofRank, hranks, view]

section

variable (total : Nat) {ranks : Nat}

theorem offset_view (r : Fin ranks) (i : Nat) : (view total r).offset i =
    if i < (view total r).share then .ok ((view total r).first r + i)
    else .error (.outOfBounds i (view total r).share) := by
  unfold offset
  split
  · unfold first
    exact congrArg Except.ok (Nat.add_right_comm _ _ _)
  · rfl

theorem tiles_offset (q : Fin ranks) :
    Tiles (fun r : Fin ranks => (view total r).offset) (fun r => (view total r).share) total := by
  have htiles := tiles_of_start (fun r : Fin ranks => (view total r).share) (view total q).first
    (fun r => (view total q).first_succ r) _ (first_zero _) (offset_view total)
  have hend : (view total q).first ranks = total := (view total q).first_ranks
  rwa [hend] at htiles

theorem tiles_slot (q : Fin ranks) :
    Tiles (fun r : Fin ranks => (view total r).slot) (fun _ => (view total q).capacity)
      (view total q).slots := by
  have htiles := tiles_of_start (fun _ : Fin ranks => (view total q).capacity)
    (fun r => r * (view total q).capacity) (fun r => Nat.succ_mul _ _)
    (fun r => (view total r).slot) (Nat.zero_mul _) fun r i => rfl
  rwa [show ranks * (view total q).capacity = (view total q).slots from Nat.mul_comm _ _] at htiles

theorem isGreatest_capacity (q : Fin ranks) :
    IsGreatest (Set.range fun r : Fin ranks => (view total r).share) (view total q).capacity := by
  constructor
  · exact ⟨⟨0, Nat.zero_lt_of_lt q.isLt⟩, (view total q).shareOf_zero⟩
  · rintro _ ⟨r, rfl⟩
    exact (view total r).shareOf_le_capacity r

end

/-- The blocks of a group tile the items and the padded array. -/
theorem shares_tile (total : Nat) {ranks : Nat} (hranks : 0 < ranks) :
    (∀ r : Fin ranks, ofRank total ranks r = .ok (view total r)) ∧
    Tiles (fun r : Fin ranks => (view total r).offset) (fun r => (view total r).share) total ∧
    (∀ q r : Fin ranks, (view total q).itemsOf r = .ok (view total r).share) ∧
    (∀ (q : Fin ranks) (r : Nat), ranks ≤ r →
      (view total q).itemsOf r = .error (.outOfBounds r ranks)) ∧
    (∀ q r : Fin ranks, q ≤ r → (view total r).share ≤ (view total q).share ∧
      (view total q).share ≤ (view total r).share + 1) ∧
    ∃ capacity slots,
      (∀ r : Fin ranks, (view total r).capacity = capacity ∧ (view total r).slots = slots) ∧
      IsGreatest (Set.range fun r : Fin ranks => (view total r).share) capacity ∧
      total ≤ slots ∧ slots < total + ranks ∧
      Tiles (fun r : Fin ranks => (view total r).slot) (fun _ => capacity) slots := by
  have root : Fin ranks := ⟨0, hranks⟩
  refine ⟨ofRank_eq_view total, tiles_offset total root, ?_, ?_, ?_, (view total root).capacity,
    (view total root).slots, fun r => ⟨rfl, rfl⟩, isGreatest_capacity total root,
    (view total root).total_le_slots, (view total root).slots_lt, tiles_slot total root⟩
  · intro q r
    exact if_pos r.isLt
  · intro q r hr
    exact if_neg (Nat.not_lt.mpr hr)
  · intro q r h
    exact (view total q).shareOf_le h

theorem shares_tile_seven : 0 < 5 ∧
    (view 7 (2 : Fin 5)).offset 0 = .ok 4 ∧ (view 7 (2 : Fin 5)).slot 0 = .ok 4 ∧
    ∀ r : Fin 5, ∀ i, (view 7 r).offset i = .ok 4 → r = 2 ∧ i = 0 := by
  have hat : (view 7 (2 : Fin 5)).offset 0 = .ok 4 := by decide
  obtain ⟨-, htiles, -⟩ := shares_tile 7 (show 0 < 5 by decide)
  refine ⟨by decide, hat, by decide, fun r i hri => ?_⟩
  have hsame : (r, i) = (2, 0) := (htiles.unique 4 (by decide)).unique hri hat
  exact Prod.ext_iff.mp hsame

end Lagmeter.Blocks
