import Lagmeter.Proofs.Number.Rounding
import Lagmeter.Stats.Samples
import Mathlib.Data.List.Sort

/-!
# Percentiles count samples

The statistics of a list of samples depend on how often each sample is there, and on nothing else. A
percentile is one of the samples. How many samples lie below it, and how many do not lie above it, is
told by its place, which grows with the fraction.
-/

namespace Lagmeter

/-! ## Fractions -/

namespace Double

theorem isFinite_of_isZero {x : Double} (h : x.isZero = true) : x.isFinite = true := by
  have hzero : x.bits.toNat % 2 ^ 63 = 0 := of_decide_eq_true h
  have hfield : ¬ x.bits.toNat / 2 ^ 52 % 2 ^ 11 = 2047 := by omega
  exact decide_eq_true hfield

theorem ratio_le_iff {x : Double} : x.ratio.1 ≤ x.ratio.2 ↔ x.magnitude ≤ 1 := by
  rw [← ratio_div, div_le_one (by exact_mod_cast x.ratio_pos), Nat.cast_le]

end Double

namespace Samples

/-- A number from 0 to 1. -/
def IsShare (p : Double) : Prop := p.isFinite = true ∧ 0 ≤ p.value ∧ p.value ≤ 1

theorem isFraction_iff {p : Double} : isFraction p = true ↔ IsShare p := by
  have hpos := p.magnitude_nonneg
  unfold isFraction IsShare
  by_cases hzero : p.isZero = true
  · have hmagnitude := Double.magnitude_eq_zero_iff.mpr hzero
    have hvalue : p.value = 0 := by simp [Double.value, hmagnitude]
    simp [hzero, hvalue, Double.isFinite_of_isZero hzero]
  · have hmagnitude := mt Double.magnitude_eq_zero_iff.mp hzero
    cases hneg : p.isNegative with
    | true =>
      have hvalue : ¬ 0 ≤ p.value := by
        rw [Double.value, if_pos hneg, neg_nonneg, not_le]
        exact lt_of_le_of_ne hpos (Ne.symm hmagnitude)
      simp [hzero, hvalue]
    | false =>
      have hvalue : p.value = p.magnitude := if_neg (by simp [hneg])
      simp [hzero, hvalue, hpos, Double.ratio_le_iff]

theorem place_mono (n : Nat) {p q : Double} (h : p.magnitude ≤ q.magnitude) : place n p ≤ place n q :=
  Double.wholeWord_times_mono _ h

/-! ## Counting in a sorted list -/

section

variable {l : List Nat} {i : Nat}

theorem getElem_le_getElem (hl : l.Pairwise (· ≤ ·)) {j : Nat} (h : i ≤ j) (hj : j < l.length) :
    l[i] ≤ l[j] := by
  rcases h.lt_or_eq with hlt | rfl
  · exact List.pairwise_iff_getElem.mp hl i j _ hj hlt
  · exact le_refl _

theorem succ_le_countP_le (hl : l.Pairwise (· ≤ ·)) (hi : i < l.length) :
    i + 1 ≤ l.countP (· ≤ l[i]) := by
  have hall : (l.take (i + 1)).countP (· ≤ l[i]) = (l.take (i + 1)).length := by
    rw [List.countP_eq_length]
    intro x hx
    obtain ⟨j, hj, rfl⟩ := List.mem_take_iff_getElem.mp hx
    exact decide_eq_true (getElem_le_getElem hl (by omega) hi)
  have hpart := (List.take_sublist (i + 1) l).countP_le (p := (· ≤ l[i]))
  rw [hall, List.length_take] at hpart
  omega

theorem countP_lt_le (hl : l.Pairwise (· ≤ ·)) (hi : i < l.length) : l.countP (· < l[i]) ≤ i := by
  have hnone : (l.drop i).countP (· < l[i]) = 0 := by
    rw [List.countP_eq_zero]
    intro x hx
    obtain ⟨j, hj, rfl⟩ := List.mem_drop_iff_getElem.mp hx
    have hle := getElem_le_getElem hl (Nat.le_add_right i j) (by omega)
    simpa using hle
  calc l.countP (· < l[i])
    _ = (l.take i).countP (· < l[i]) + (l.drop i).countP (· < l[i]) := by
      rw [← List.countP_append, List.take_append_drop]
    _ = (l.take i).countP (· < l[i]) := by rw [hnone, Nat.add_zero]
    _ ≤ (l.take i).length := List.countP_le_length
    _ ≤ i := by rw [List.length_take]; exact Nat.min_le_left _ _

end

/-! ## Samples in order -/

/-- The samples in increasing order, and nothing else. -/
structure Sorts (s : Samples) (xs : List Nat) : Prop where
  perm : s.sorted.Perm xs
  rising : s.sorted.Pairwise (· ≤ ·)

theorem ofList_eq {xs : List Nat} (h : xs ≠ []) : ∃ s, ofList xs = .ok s ∧ s.Sorts xs :=
  ⟨_, dif_neg h, List.mergeSort_perm xs _, List.pairwise_mergeSort' _ xs⟩

/-- Nothing but the samples themselves decides about the order. -/
theorem Sorts.unique {s t : Samples} {xs ys : List Nat} (hs : s.Sorts xs) (ht : t.Sorts ys) (h : xs.Perm ys) :
    s = t := by
  have hsorted : s.sorted = t.sorted :=
    (hs.perm.trans (h.trans ht.perm.symm)).eq_of_pairwise (fun _ _ _ _ => le_antisymm) hs.rising ht.rising
  cases s
  cases t
  cases hsorted
  rfl

variable {s : Samples} {xs : List Nat}

theorem Sorts.length_eq (h : s.Sorts xs) : s.sorted.length = xs.length := h.perm.length_eq

theorem length_pos (s : Samples) : 0 < s.sorted.length := List.length_pos_iff.mpr s.ne_nil

section

variable {i : Nat} (hi : i < s.sorted.length)

theorem min_eq_getElem (h : 0 < s.sorted.length) : s.min = s.sorted[0] := List.head_eq_getElem s.ne_nil

theorem max_eq_getElem (h : s.sorted.length - 1 = i) : s.max = s.sorted[i] := by
  subst h
  exact List.getLast_eq_getElem s.ne_nil

theorem atPlace_eq_getElem {k : Nat} (h : Min.min k (s.sorted.length - 1) = i) :
    s.atPlace k = s.sorted[i] := by
  subst h
  rfl

end

theorem Sorts.min_le (h : s.Sorts xs) : s.min ∈ xs ∧ ∀ x ∈ xs, s.min ≤ x := by
  rw [min_eq_getElem s.length_pos]
  refine ⟨h.perm.mem_iff.mp (List.getElem_mem _), fun x hx => ?_⟩
  obtain ⟨i, hi, rfl⟩ := List.mem_iff_getElem.mp (h.perm.mem_iff.mpr hx)
  exact getElem_le_getElem h.rising (Nat.zero_le i) hi

theorem Sorts.le_max (h : s.Sorts xs) : s.max ∈ xs ∧ ∀ x ∈ xs, x ≤ s.max := by
  rw [max_eq_getElem (Nat.sub_lt s.length_pos Nat.one_pos) rfl]
  refine ⟨h.perm.mem_iff.mp (List.getElem_mem _), fun x hx => ?_⟩
  obtain ⟨i, hi, rfl⟩ := List.mem_iff_getElem.mp (h.perm.mem_iff.mpr hx)
  exact getElem_le_getElem h.rising (by omega) _

theorem Sorts.countP_atPlace (h : s.Sorts xs) (k : Nat) :
    Min.min (k + 1) xs.length ≤ xs.countP (· ≤ s.atPlace k) ∧ xs.countP (· < s.atPlace k) ≤ k := by
  have hi := s.min_lt_length k
  have hlow := succ_le_countP_le h.rising hi
  have hhigh := countP_lt_le h.rising hi
  rw [h.perm.countP_eq] at hlow hhigh
  rw [atPlace_eq_getElem hi rfl]
  have hlength := h.length_eq
  omega

theorem Sorts.atPlace_mono (h : s.Sorts xs) {k l : Nat} (hkl : k ≤ l) : s.atPlace k ≤ s.atPlace l :=
  getElem_le_getElem h.rising (min_le_min_right _ hkl) _

theorem Sorts.atPlace_mem (h : s.Sorts xs) (k : Nat) : s.atPlace k ∈ xs :=
  h.perm.mem_iff.mp (List.getElem_mem _)

/-! ## Percentiles -/

theorem percentile_of_isShare {p : Double} (hp : IsShare p) :
    s.percentile p = .ok (s.atPlace (place s.count p)) := if_pos (isFraction_iff.mpr hp)

theorem percentile_of_not_isShare {p : Double} (hp : ¬ IsShare p) :
    s.percentile p = .error (.outsidePercentile p) := if_neg (mt isFraction_iff.mp hp)

theorem Sorts.percentile_mono (h : s.Sorts xs) {p q : Double} {x y : Nat} (hpq : p.value ≤ q.value)
    (hp : s.percentile p = .ok x) (hq : s.percentile q = .ok y) : x ≤ y := by
  by_cases hsharep : IsShare p
  · by_cases hshareq : IsShare q
    · rw [percentile_of_isShare hsharep] at hp
      rw [percentile_of_isShare hshareq] at hq
      cases hp
      cases hq
      refine h.atPlace_mono (place_mono _ ?_)
      rwa [Double.magnitude_eq_value hsharep.2.1, Double.magnitude_eq_value hshareq.2.1]
    · cases (percentile_of_not_isShare hshareq).symm.trans hq
  · cases (percentile_of_not_isShare hsharep).symm.trans hp

/-! ### The summary -/

/-- Two shares in increasing order, decided by their bits. -/
def inOrder (p q : Double) : Bool :=
  isFraction p && isFraction q && p.bits.toNat ≤ q.bits.toNat && q.bits.toNat < 0x7ff0000000000000

theorem percentileOrMax_of_isFraction {p : Double} (hp : isFraction p = true) :
    s.percentileOrMax p = s.atPlace (place s.count p) := by
  rw [percentileOrMax, percentile, if_pos hp]

theorem Sorts.percentileOrMax_mono (h : s.Sorts xs) {p q : Double} (hpq : inOrder p q = true) :
    s.percentileOrMax p ≤ s.percentileOrMax q := by
  simp only [inOrder, Bool.and_eq_true, decide_eq_true_eq] at hpq
  obtain ⟨⟨⟨hp, hq⟩, hbits⟩, hfinite⟩ := hpq
  rw [percentileOrMax_of_isFraction hp, percentileOrMax_of_isFraction hq]
  exact h.atPlace_mono (place_mono _ (Double.magnitude_mono hbits hfinite))

/-- The figures of a summary, from the least to the greatest. -/
def figures (s : Summary) : List Nat := [s.min, s.p50, s.p90, s.p95, s.p99, s.p9999, s.max]

theorem Sorts.figures_rising (h : s.Sorts xs) : (figures s.summary).IsChain (· ≤ ·) := by
  have hmem (p : Double) (hp : isFraction p = true) :
      s.min ≤ s.percentileOrMax p ∧ s.percentileOrMax p ≤ s.max := by
    rw [percentileOrMax_of_isFraction hp]
    exact ⟨h.min_le.2 _ (h.atPlace_mem _), h.le_max.2 _ (h.atPlace_mem _)⟩
  have h50 : s.percentileOrMax 0.50 ≤ s.percentileOrMax 0.90 := h.percentileOrMax_mono (by decide +kernel)
  have h90 : s.percentileOrMax 0.90 ≤ s.percentileOrMax 0.95 := h.percentileOrMax_mono (by decide +kernel)
  have h95 : s.percentileOrMax 0.95 ≤ s.percentileOrMax 0.99 := h.percentileOrMax_mono (by decide +kernel)
  have h99 : s.percentileOrMax 0.99 ≤ s.percentileOrMax 0.9999 := h.percentileOrMax_mono (by decide +kernel)
  have hlow := (hmem 0.50 (by decide +kernel)).1
  have hhigh := (hmem 0.9999 (by decide +kernel)).2
  simp [figures, summary, hlow, h50, h90, h95, h99, hhigh]

/-! ## Order statistics -/

/-- What the statistics say of the samples. -/
structure Describes (s : Samples) (xs : List Nat) : Prop where
  sorts : s.Sorts xs
  min_le : s.min ∈ xs ∧ ∀ x ∈ xs, s.min ≤ x
  le_max : s.max ∈ xs ∧ ∀ x ∈ xs, x ≤ s.max
  /-- A percentile is the sample at its place, or the last one. -/
  percentile : ∀ p, IsShare p → ∃ x, s.percentile p = .ok x ∧ x ∈ xs ∧
    s.sorted[Min.min (place xs.length p) (xs.length - 1)]? = some x ∧
    Min.min (place xs.length p + 1) xs.length ≤ xs.countP (· ≤ x) ∧
    xs.countP (· < x) ≤ place xs.length p ∧ s.min ≤ x ∧ x ≤ s.max
  rising : ∀ p q x y, p.value ≤ q.value → s.percentile p = .ok x → s.percentile q = .ok y → x ≤ y
  outside : ∀ p, ¬ IsShare p → s.percentile p = .error (.outsidePercentile p)
  figures : (figures s.summary).IsChain (· ≤ ·)

theorem Sorts.describes (h : s.Sorts xs) : s.Describes xs where
  sorts := h
  min_le := h.min_le
  le_max := h.le_max
  percentile p hp := by
    have hcount : s.count = xs.length := h.length_eq
    have hmem := h.atPlace_mem (place xs.length p)
    refine ⟨s.atPlace (place xs.length p), ?_, hmem, ?_, (h.countP_atPlace _).1, (h.countP_atPlace _).2,
      h.min_le.2 _ hmem, h.le_max.2 _ hmem⟩
    · rw [percentile_of_isShare hp, hcount]
    · rw [← h.length_eq, List.getElem?_eq_getElem (s.min_lt_length _)]
      rfl
  rising _ _ _ _ hpq hp hq := h.percentile_mono hpq hp hq
  outside _ hp := percentile_of_not_isShare hp
  figures := h.figures_rising

/-- Samples that are not none have statistics, which do not depend on their order. -/
theorem order_statistics (xs : List Nat) (h : xs ≠ []) :
    ∃ s, ofList xs = .ok s ∧ s.Describes xs ∧ ∀ ys : List Nat, ys.Perm xs → ofList ys = .ok s := by
  obtain ⟨s, hs, hsorts⟩ := ofList_eq h
  refine ⟨s, hs, hsorts.describes, fun ys hperm => ?_⟩
  have hne : ys ≠ [] := by
    rintro rfl
    exact h hperm.nil_eq.symm
  obtain ⟨t, ht, htsorts⟩ := ofList_eq hne
  rw [ht, htsorts.unique hsorts hperm]

theorem order_statistics_five : ∃ s, ofList [40, 10, 50, 20, 30] = .ok s ∧
    s.Describes [40, 10, 50, 20, 30] ∧ ofList [10, 20, 30, 40, 50] = .ok s ∧
      s.percentile 0.5 = .ok 30 ∧ s.percentile 0.9 = .ok 50 ∧
      s.percentile 1.5 = .error (.outsidePercentile 1.5) := by
  obtain ⟨s, hs, hdescribes, hperm⟩ := order_statistics [40, 10, 50, 20, 30] (by decide)
  have hsorts : Sorts ⟨[10, 20, 30, 40, 50], by decide⟩ [10, 20, 30, 40, 50] := ⟨.refl _, by decide⟩
  have hsorted := hdescribes.sorts.unique hsorts (by decide)
  refine ⟨s, hs, hdescribes, hperm _ (by decide), ?_, ?_, ?_⟩ <;> rw [hsorted] <;> decide +kernel

end Samples

end Lagmeter
