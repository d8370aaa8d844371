import Lagmeter.Proofs.Cycle.Deliveries
import Mathlib.Algebra.BigOperators.Group.Finset.Basic

/-!
# What a histogram counts

The histogram of a delivery tells how many versions were seen by how many readers. Summed up, it
counts every sighting once, and so it counts what the readers recorded, as long as they recorded
nothing that was not written.
-/

namespace Lagmeter

namespace Delivery

open Collection

/-! ## Tallies -/

section

variable {limit : Nat} {numbers : List Nat}

theorem mem_tally {k n : Nat} :
    (k, n) ∈ tally limit numbers ↔ k ≤ limit ∧ 0 < n ∧ n = numbers.count k := by
  simp only [tally, List.mem_filterMap, List.mem_range, Option.ite_none_left_eq_some, Option.some.injEq,
    Prod.mk.injEq]
  constructor
  · rintro ⟨_, hk, hpos, rfl, rfl⟩
    exact ⟨by omega, by omega, rfl⟩
  · rintro ⟨hk, hpos, rfl⟩
    exact ⟨k, by omega, by omega, rfl, rfl⟩

theorem keys_tally (limit : Nat) (numbers : List Nat) :
    ((tally limit numbers).map Prod.fst).Pairwise (· < ·) := by
  have hkeys : (tally limit numbers).map Prod.fst =
      (List.range (limit + 1)).filter fun k => numbers.count k ≠ 0 := by
    rw [tally, List.map_filterMap, ← List.filterMap_eq_filter]
    refine List.filterMap_congr fun k _ => ?_
    by_cases hk : numbers.count k = 0 <;> simp [hk, Option.guard]
  rw [hkeys]
  exact List.Pairwise.filter _ List.pairwise_lt_range

theorem sum_map_tally {f : Nat × Nat → Nat} (hf : ∀ k, f (k, 0) = 0) :
    ((tally limit numbers).map f).sum =
      ∑ k ∈ Finset.range (limit + 1), f (k, numbers.count k) := by
  have hall (ks : List Nat) : ((ks.filterMap fun k =>
      if numbers.count k = 0 then none else some (k, numbers.count k)).map f).sum =
        (ks.map fun k => f (k, numbers.count k)).sum := by
    induction ks with
    | nil => rfl
    | cons k ks ih =>
      rw [List.map_cons, List.sum_cons, ← ih]
      by_cases hk : numbers.count k = 0
      · simp [hk, hf]
      · simp [hk]
  rw [tally, hall]
  rfl

variable (h : ∀ n ∈ numbers, n ≤ limit)

include h

theorem sum_tally : ((tally limit numbers).map fun x => x.1 * x.2).sum = numbers.sum := by
  have hsubset : numbers.toFinset ⊆ Finset.range (limit + 1) := by
    intro n hn
    exact Finset.mem_range.mpr (Nat.lt_succ_of_le (h n (List.mem_toFinset.mp hn)))
  rw [sum_map_tally fun _ => rfl, Finset.sum_list_count_of_subset numbers _ hsubset]
  exact Finset.sum_congr rfl fun k _ => Nat.mul_comm k _

theorem sum_counts_tally : ((tally limit numbers).map Prod.snd).sum = numbers.length := by
  have hmem : ∀ n ∈ (numbers : Multiset Nat), n ∈ Finset.range (limit + 1) := by
    intro n hn
    exact Finset.mem_range.mpr (Nat.lt_succ_of_le (h n (Multiset.mem_coe.mp hn)))
  rw [sum_map_tally fun _ => rfl]
  simpa using Multiset.sum_count_eq_card hmem

end

/-! ## Sightings -/

theorem sum_map_toNat {α : Type} (p : α → Bool) (rows : List α) :
    (rows.map fun r => (p r).toNat).sum = (rows.filter p).length := by
  induction rows with
  | nil => rfl
  | cons r rows ih => cases hr : p r <;> simp [hr, ih, Nat.add_comm]

theorem sum_length_filter {α β : Type} (p : α → β → Bool) (rows : List α) (columns : List β) :
    (columns.map fun c => (rows.filter fun r => p r c).length).sum =
      (rows.map fun r => (columns.filter (p r)).length).sum := by
  induction columns with
  | nil => simp
  | cons c columns ih =>
    have hcons (r : α) : ((c :: columns).filter (p r)).length =
        (p r c).toNat + (columns.filter (p r)).length := by
      cases hr : p r c <;> simp [hr, Nat.add_comm]
    simp only [hcons, List.sum_map_add, sum_map_toNat, List.map_cons, List.sum_cons, ih]

theorem sum_map_filter {α : Type} {p : α → Bool} {f : α → Nat} {xs : List α}
    (h : ∀ x ∈ xs, p x = false → f x = 0) : ((xs.filter p).map f).sum = (xs.map f).sum := by
  induction xs with
  | nil => rfl
  | cons x xs ih =>
    have hrest := ih fun y hy => h y (List.mem_cons_of_mem x hy)
    cases hx : p x with
    | true =>
      rw [List.filter_cons_of_pos hx, List.map_cons, List.sum_cons, hrest, List.map_cons,
        List.sum_cons]
    | false =>
      rw [List.filter_cons_of_neg (by simp [hx]), hrest, List.map_cons, List.sum_cons,
        h x List.mem_cons_self hx, Nat.zero_add]

/-! ## The histogram -/

variable {map slots : Nat} {sent : List Int64} {readers : List (List Int64)}

theorem length_seen (readers : List (List Int64)) (version : Nat) :
    (seen readers version).length = (readers.filter fun row => timeAt row version ≠ 0).length := by
  rw [seen, List.filter_map, List.length_map]
  rfl

/-- If whatever was seen was written, the histogram counts all that was seen. -/
theorem sum_histogram (hslots : slots ≤ sent.length)
    (hwritten : ∀ row ∈ readers, ∀ v < slots, timeAt row v ≠ 0 → timeAt sent v ≠ 0) :
    ((ofTimes map slots sent readers).histogram.map fun x => x.1 * x.2).sum =
      (readers.map fun row => ((List.range slots).filter fun v => timeAt row v ≠ 0).length).sum := by
  have hbound : ∀ n ∈ (writtenOf slots sent).map fun v => (seen readers v).length,
      n ≤ readers.length := by
    simp only [List.forall_mem_map, length_seen]
    exact fun v _ => List.length_filter_le ..
  have hunwritten : ∀ v ∈ List.range slots, decide (timeAt sent v ≠ 0) = false →
      (seen readers v).length = 0 := by
    intro v hv hnot
    rw [length_seen, List.length_eq_zero_iff, List.filter_eq_nil_iff]
    intro row hrow hseen
    exact of_decide_eq_false hnot
      (hwritten row hrow v (List.mem_range.mp hv) (of_decide_eq_true hseen))
  rw [ofTimes, sum_tally hbound, writtenOf, Nat.min_eq_left hslots, sum_map_filter hunwritten]
  simp only [length_seen]
  exact sum_length_filter (fun row v => decide (timeAt row v ≠ 0)) readers (List.range slots)

end Delivery

end Lagmeter
