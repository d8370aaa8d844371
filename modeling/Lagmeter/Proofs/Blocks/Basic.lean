import Lagmeter.Blocks
import Mathlib.Data.List.Basic

/-!
# Shares of a group

The shares of the ranks come to the total, and the padded shares come to the slots. Where all shares
are padded to the same length, the share of every rank is found again in what all of them make.
-/

namespace Lagmeter

/-! ## Blocks of one length -/

section

variable {α : Type} {xs : Nat → List α} {size n : Nat}

theorem length_flatMap_range (h : ∀ q < n, (xs q).length = size) :
    ((List.range n).flatMap xs).length = n * size := by
  induction n with
  | zero => rw [Nat.zero_mul]; rfl
  | succ n ih =>
    rw [List.range_succ, List.flatMap_append, List.length_append, ih fun q hq => h q (by omega),
      List.flatMap_singleton, h n (Nat.lt_succ_self n), Nat.succ_mul]

theorem take_drop_flatMap {q count : Nat} (h : ∀ q < n, (xs q).length = size) (hq : q < n)
    (hcount : count ≤ size) :
    (((List.range n).flatMap xs).drop (q * size)).take count = (xs q).take count := by
  obtain ⟨rest, rfl⟩ := Nat.exists_eq_add_of_lt hq
  have hsplit : (List.range (q + rest + 1)).flatMap xs =
      (List.range q).flatMap xs ++ (xs q ++ ((List.range rest).map (q + 1 + ·)).flatMap xs) := by
    rw [show q + rest + 1 = q + 1 + rest by omega, List.range_add, List.range_succ,
      List.flatMap_append, List.flatMap_append, List.flatMap_singleton, List.append_assoc]
  have hbefore := length_flatMap_range (n := q) fun p hp => h p (by omega)
  rw [hsplit, ← hbefore, List.drop_left, List.take_append_of_le_length (by rw [h q hq]; exact hcount)]

end

namespace Blocks

variable {b : Blocks}

/-! ## Shares -/

/-- Where the block of a rank begins. -/
def first (b : Blocks) (r : Nat) : Nat := r * b.base + min r b.extra

theorem extra_lt (b : Blocks) : b.extra < b.ranks := Nat.mod_lt _ (Nat.zero_lt_of_lt b.rank_lt)

@[simp] theorem first_zero (b : Blocks) : b.first 0 = 0 := by simp [first]

theorem first_succ (b : Blocks) (r : Nat) : b.first (r + 1) = b.first r + b.shareOf r := by
  unfold first shareOf
  rw [Nat.succ_mul]
  split <;> omega

theorem ranks_mul_base_add_extra (b : Blocks) : b.ranks * b.base + b.extra = b.total :=
  Nat.div_add_mod b.total b.ranks

theorem first_ranks (b : Blocks) : b.first b.ranks = b.total := by
  rw [first, Nat.min_eq_right (Nat.le_of_lt b.extra_lt), ranks_mul_base_add_extra]

theorem first_mono (b : Blocks) {r s : Nat} (h : r ≤ s) : b.first r ≤ b.first s := by
  induction h with
  | refl => exact Nat.le_refl _
  | step _ ih =>
    rw [Nat.succ_eq_add_one, first_succ]
    omega

theorem shareOf_le_capacity (b : Blocks) (q : Nat) : b.shareOf q ≤ b.capacity := by
  unfold shareOf capacity
  split <;> split <;> omega

theorem shareOf_le (b : Blocks) {q r : Nat} (h : q ≤ r) :
    b.shareOf r ≤ b.shareOf q ∧ b.shareOf q ≤ b.shareOf r + 1 := by
  unfold shareOf
  split <;> split <;> omega

theorem shareOf_zero (b : Blocks) : b.shareOf 0 = b.capacity := by
  unfold shareOf capacity
  split <;> split <;> omega

theorem length_shares_take (b : Blocks) (n : Nat) {α : Type} {xs : Nat → List α}
    (h : ∀ q < n, (xs q).length = b.shareOf q) :
    ((List.range n).flatMap xs).length = b.first n := by
  induction n with
  | zero => simp
  | succ n ih =>
    rw [List.range_succ, List.flatMap_append, List.length_append, ih fun q hq => h q (by omega),
      List.flatMap_singleton, h n (Nat.lt_succ_self n), first_succ]

theorem length_shares (b : Blocks) {α : Type} {xs : Nat → List α}
    (h : ∀ q < b.ranks, (xs q).length = b.shareOf q) :
    ((List.range b.ranks).flatMap xs).length = b.total := by
  rw [b.length_shares_take b.ranks h, first_ranks]

theorem slots_eq_length {α : Type} {xs : Nat → List α}
    (h : ∀ q < b.ranks, (xs q).length = b.capacity) :
    ((List.range b.ranks).flatMap xs).length = b.slots := by
  rw [length_flatMap_range h, slots, Nat.mul_comm]

theorem compacted_flatMap {α : Type} {xs : Nat → List α}
    (h : ∀ q < b.ranks, (xs q).length = b.capacity) :
    b.compacted ((List.range b.ranks).flatMap xs) =
      .ok ((List.range b.ranks).flatMap fun q => (xs q).take (b.shareOf q)) := by
  rw [compacted, if_neg (by rw [slots_eq_length h]; exact Nat.lt_irrefl _), dense]
  refine congrArg Except.ok (List.flatMap_congr fun q hq => ?_)
  exact take_drop_flatMap h (List.mem_range.mp hq) (b.shareOf_le_capacity q)

/-! ## Slots -/

theorem slots_eq (b : Blocks) :
    b.slots = if b.extra = 0 then b.total else b.total + (b.ranks - b.extra) := by
  have htotal := b.ranks_mul_base_add_extra
  have hextra := b.extra_lt
  unfold slots capacity
  rw [Nat.mul_comm]
  by_cases hzero : b.extra = 0
  · simp only [hzero, ne_eq, not_true_eq_false, if_false, if_true]
    omega
  · rw [if_pos hzero, if_neg hzero, Nat.mul_succ]
    omega

theorem total_le_slots (b : Blocks) : b.total ≤ b.slots := by
  rw [slots_eq]
  split <;> omega

theorem slots_lt (b : Blocks) : b.slots < b.total + b.ranks := by
  have hextra := b.extra_lt
  rw [slots_eq]
  split <;> omega

end Blocks

end Lagmeter
