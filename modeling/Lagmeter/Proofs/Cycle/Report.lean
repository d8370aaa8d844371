import Lagmeter.Proofs.Cycle.Gathering

/-!
# The report of a collection

The report that the root makes of what it gathered is what `reference` says of the outcomes
themselves. No number that only fills a list up comes into it.
-/

namespace Lagmeter

/-- An outcome whose numbers fit in words. The greatest word stands for no start. -/
structure Outcome.Recordable (o : Outcome) : Prop where
  latencies : o.latencies.length < 2 ^ 63
  samples : ∀ x ∈ o.latencies, x < 2 ^ 64
  times : ∀ t ∈ o.times, t < 2 ^ 63 - 1
  map : ∀ map, o.role.map? = some map → map < 2 ^ 63 - 1
  start : ∀ t, o.start = some t → t < 2 ^ 63 - 1
  finish : ∀ t, o.finish = some t → t < 2 ^ 63 - 1

namespace Collection

/-! ## The reference -/

section

variable (size slots : Nat) (o : Nat → Outcome)

/-- From the earliest start to the latest end of the ranks that have one, if some time passed. -/
def elapsed : Option Nat :=
  match ((List.range size).filterMap fun q => (o q).start).min?,
    ((List.range size).filterMap fun q => (o q).finish).max? with
  | some start, some finish => if start < finish then some (finish - start) else none
  | _, _ => none

/-- The recorded times of the readers of a map, in the order of the ranks. -/
def readersOf (map : Nat) : List (List Nat) :=
  ((List.range size).filter fun q => (o q).role = .reader map).map fun q => (o q).times

/-- The sum of what the ranks counted, as far as it fits in a word. -/
def total (count : Outcome → Nat) : Nat :=
  (Reduction.sum.reference ((List.range size).map fun q => word (count (o q)))).toInt.toNat

def reference : Aggregate where
  participants := size
  samplesPerRank := (List.range size).map fun q => (o q).latencies.length
  latency := (Samples.ofList ((List.range size).flatMap fun q => (o q).latencies)).toOption.map
    Samples.summary
  deliveries := (List.range size).filterMap fun q => match (o q).role with
    | .writer map => some (Delivery.reference map slots (o q).times (readersOf size o map))
    | _ => none
  wallClock := elapsed size o
  invalid := total size o Outcome.invalid
  missed := total size o Outcome.missed
  failures := total size o Outcome.failures

end

/-! ## Headers and rows -/

theorem roleOf_word {map : Nat} (h : map < 2 ^ 63) :
    roleOf 1 (word map) = .writer map ∧ roleOf 2 (word map) = .reader map := by
  have hnot : ¬ (word map).toInt < 0 := by
    rw [toInt_word h]
    omega
  simp [roleOf, toInt_word h]

theorem headers_header {common : Nat} {o : Outcome} (ho : o.Recordable) (rest : List Int64) :
    headers common (header o ++ rest) =
      ⟨min o.latencies.length common, o.role⟩ :: headers common rest := by
  have hmap := ho.map
  rw [header]
  cases hrole : o.role with
  | idle => simp [roleWords, headers, toInt_word ho.latencies, roleOf]
  | writer map =>
    have hlt : map < 2 ^ 63 := by have := hmap map (by rw [hrole]; rfl); omega
    simp [roleWords, headers, toInt_word ho.latencies, roleOf_word hlt]
  | reader map =>
    have hlt : map < 2 ^ 63 := by have := hmap map (by rw [hrole]; rfl); omega
    simp [roleWords, headers, toInt_word ho.latencies, roleOf_word hlt]

theorem headers_flatMap {common : Nat} {o : Nat → Outcome} {ranks : List Nat}
    (ho : ∀ q ∈ ranks, (o q).Recordable) :
    headers common (ranks.flatMap fun q => header (o q)) =
      ranks.map fun q => ⟨min (o q).latencies.length common, (o q).role⟩ := by
  induction ranks with
  | nil => rfl
  | cons q ranks ih =>
    rw [List.flatMap_cons, headers_header (ho q List.mem_cons_self),
      ih fun p hp => ho p (List.mem_cons_of_mem q hp), List.map_cons]

theorem rows_flatMap {width : Nat} {f : Nat → List Int64} {ranks : List Nat}
    (hf : ∀ q ∈ ranks, (f q).length = width) :
    rows width (ranks.flatMap f) ranks.length = ranks.map f := by
  induction ranks with
  | nil => rfl
  | cons q ranks ih =>
    have hq := hf q List.mem_cons_self
    rw [List.flatMap_cons, List.length_cons, rows, ← hq, List.take_left, List.drop_left, hq,
      ih fun p hp => hf p (List.mem_cons_of_mem q hp), List.map_cons]

theorem take_padded {length : Nat} {ns : List Nat} (hlength : ns.length ≤ length)
    (hns : ∀ n ∈ ns, n < 2 ^ 64) : ((padded length ns).take ns.length).map number = ns := by
  have htake : (padded length ns).take ns.length = ns.map word := by
    rw [padded, List.take_of_length_le (l := ns.map word) (by simpa using hlength),
      List.take_left' (List.length_map _)]
  rw [htake, List.map_map]
  exact (List.map_congr_left fun n hn => number_word (hns n hn)).trans (List.map_id ns)

/-! ## Extremes -/

theorem toInt_least {ws : List Int64} (hws : ws ≠ []) :
    (ws.map Int64.toInt).min? = some (Reduction.least.reference ws).toInt := by
  cases ws with
  | nil => exact absurd rfl hws
  | cons w ws =>
    simp only [Reduction.reference, List.map_cons, List.min?_cons', Option.getD_some,
      ← Collective.toInt_foldl_lesser, Int64.ofInt_toInt]

theorem toInt_greatest {ws : List Int64} (hws : ws ≠ []) :
    (ws.map Int64.toInt).max? = some (Reduction.greatest.reference ws).toInt := by
  cases ws with
  | nil => exact absurd rfl hws
  | cons w ws =>
    simp only [Reduction.reference, List.map_cons, List.max?_cons', Option.getD_some,
      ← Collective.toInt_foldl_greater, Int64.ofInt_toInt]

theorem toInt_maxWord : Collective.maxWord.toInt = 2 ^ 63 - 1 := by decide

theorem extreme_elim {R : Int → Int → Prop} (hR : ∀ x, R x x) {d : Int} {xs : List (Option Nat)}
    (hxs : xs ≠ []) (hd : ∀ t : Nat, some t ∈ xs → R t d) {x : Option Nat}
    (hnone : x = none → ∀ s ∈ xs, s = none)
    (hsome : ∀ t : Nat, x = some t → some t ∈ xs ∧ ∀ u : Nat, some u ∈ xs → R t u) :
    x.elim d Int.ofNat ∈ xs.map (fun s => s.elim d Int.ofNat) ∧
      ∀ b ∈ xs.map (fun s => s.elim d Int.ofNat), R (x.elim d Int.ofNat) b := by
  simp only [List.forall_mem_map]
  cases x with
  | none =>
    obtain ⟨s, hs⟩ := List.exists_mem_of_ne_nil _ hxs
    refine ⟨List.mem_map.mpr ⟨s, hs, by rw [hnone rfl s hs]⟩, fun s' hs' => ?_⟩
    rw [hnone rfl s' hs']
    exact hR d
  | some t =>
    obtain ⟨ht, hall⟩ := hsome t rfl
    refine ⟨List.mem_map.mpr ⟨some t, ht, rfl⟩, fun s hs => ?_⟩
    cases s with
    | none => exact hd t ht
    | some u => exact hall u hs

theorem map_toInt_elim {xs : List (Option Nat)} (hlt : ∀ t, some t ∈ xs → t < 2 ^ 63 - 1)
    (d : Int64) : (xs.map fun s => s.elim d word).map Int64.toInt =
      xs.map fun s => s.elim d.toInt Int.ofNat := by
  rw [List.map_map]
  refine List.map_congr_left fun s hs => ?_
  cases s with
  | none => rfl
  | some t => exact toInt_word (by have := hlt t hs; omega)

theorem toInt_earliest {starts : List (Option Nat)} (hne : starts ≠ [])
    (hlt : ∀ t, some t ∈ starts → t < 2 ^ 63 - 1) :
    (Reduction.least.reference (starts.map fun s => s.elim Collective.maxWord word)).toInt =
      (starts.filterMap id).min?.elim Collective.maxWord.toInt Int.ofNat := by
  refine Option.some.inj ((toInt_least (by simpa using hne)).symm.trans ?_)
  rw [map_toInt_elim hlt, List.min?_eq_some_iff]
  refine extreme_elim Int.le_refl hne (fun t ht => ?_) (fun hmin => ?_) fun t hmin => ?_
  · have := hlt t ht
    rw [toInt_maxWord]
    omega
  · simpa using List.min?_eq_none_iff.mp hmin
  · obtain ⟨hmem, hle⟩ := List.min?_eq_some_iff.mp hmin
    exact ⟨by simpa using hmem, fun u hu => Int.ofNat_le.mpr (hle u (by simpa using hu))⟩

theorem toInt_latest {ends : List (Option Nat)} (hne : ends ≠ [])
    (hlt : ∀ t, some t ∈ ends → t < 2 ^ 63 - 1) :
    (Reduction.greatest.reference (ends.map fun s => s.elim 0 word)).toInt =
      (ends.filterMap id).max?.elim 0 Int.ofNat := by
  refine Option.some.inj ((toInt_greatest (by simpa using hne)).symm.trans ?_)
  rw [map_toInt_elim hlt, List.max?_eq_some_iff]
  refine extreme_elim (R := fun x y => y ≤ x) Int.le_refl hne (fun t _ => Int.natCast_nonneg t)
    (fun hmax => ?_) fun t hmax => ?_
  · simpa using List.max?_eq_none_iff.mp hmax
  · obtain ⟨hmem, hle⟩ := List.max?_eq_some_iff.mp hmax
    exact ⟨by simpa using hmem, fun u hu => Int.ofNat_le.mpr (hle u (by simpa using hu))⟩

/-! ## The whole -/

section

variable {size : Nat} (hsize : 0 < size) {o : Nat → Outcome} (ho : ∀ q < size, (o q).Recordable)

include hsize ho

theorem wallClock_gathered (slots : Nat) : (gathered size slots o).wallClock = elapsed size o := by
  have hne {β : Type} (f : Nat → β) : (List.range size).map f ≠ [] := by
    simp only [ne_eq, List.map_eq_nil_iff, List.range_eq_nil]
    omega
  have hearliest : (gathered size slots o).earliest.toInt =
      ((List.range size).filterMap fun q => (o q).start).min?.elim Collective.maxWord.toInt
        Int.ofNat := by
    have h := toInt_earliest (hne fun q => (o q).start) (by
      simp only [List.mem_map, List.mem_range]
      rintro t ⟨q, hq, hstart⟩
      exact (ho q hq).start t hstart)
    rwa [List.map_map, List.filterMap_map] at h
  have hlatest : (gathered size slots o).latest.toInt =
      ((List.range size).filterMap fun q => (o q).finish).max?.elim 0 Int.ofNat := by
    have h := toInt_latest (hne fun q => (o q).finish) (by
      simp only [List.mem_map, List.mem_range]
      rintro t ⟨q, hq, hfinish⟩
      exact (ho q hq).finish t hfinish)
    rwa [List.map_map, List.filterMap_map] at h
  simp only [Gathered.wallClock, ← Int64.toInt_inj, hearliest, hlatest, elapsed, ne_eq]
  cases hmin : ((List.range size).filterMap fun q => (o q).start).min? with
  | none => simp
  | some s =>
    obtain ⟨q, hq, hs⟩ := List.mem_filterMap.mp (List.min?_eq_some_iff.mp hmin).1
    have hlt := (ho q (List.mem_range.mp hq)).start s hs
    cases ((List.range size).filterMap fun q => (o q).finish).max? with
    | none =>
      rw [if_neg]
      simp only [Option.elim_some, Option.elim_none, Int.ofNat_eq_natCast]
      omega
    | some f =>
      simp only [Option.elim_some, toInt_maxWord, Int.ofNat_eq_natCast]
      by_cases hsf : s < f
      · rw [if_pos (by omega), if_pos hsf]
        congr 1
        omega
      · rw [if_neg (by omega), if_neg hsf]

omit ho in
theorem le_commonWord {q : Nat} (hq : q < size) :
    (word (o q).latencies.length).toInt ≤ (commonWord size o).toInt := by
  have hne : (List.range size).map (fun q => word (o q).latencies.length) ≠ [] := by
    simp only [ne_eq, List.map_eq_nil_iff, List.range_eq_nil]
    omega
  refine (List.max?_eq_some_iff.mp (toInt_greatest hne)).2 _ ?_
  exact List.mem_map_of_mem (List.mem_map_of_mem (List.mem_range.mpr hq))

theorem length_le_common :
    0 ≤ (commonWord size o).toInt ∧ ∀ q < size, (o q).latencies.length ≤ common size o := by
  have hle {q : Nat} (hq : q < size) : ((o q).latencies.length : Int) ≤ (commonWord size o).toInt := by
    rw [← toInt_word (ho q hq).latencies]
    exact le_commonWord hsize hq
  have hroot := hle hsize
  refine ⟨by omega, fun q hq => ?_⟩
  have := hle hq
  rw [common]
  omega

theorem headers_gathered (slots : Nat) :
    headers (gathered size slots o).common (gathered size slots o).header =
      (List.range size).map fun q => ⟨(o q).latencies.length, (o q).role⟩ := by
  have hcommon := (length_le_common hsize ho).2
  refine (headers_flatMap fun q hq => ho q (List.mem_range.mp hq)).trans ?_
  exact List.map_congr_left fun q hq => by
    rw [gathered, Nat.min_eq_left (hcommon q (List.mem_range.mp hq))]

omit hsize ho in
theorem rows_padded (width : Nat) (f : Nat → List Nat) :
    rows width ((List.range size).flatMap fun q => padded width (f q)) size =
      (List.range size).map fun q => padded width (f q) := by
  have h : rows width _ (List.range size).length = _ :=
    rows_flatMap fun q _ => length_padded width (f q)
  rwa [List.length_range] at h

theorem latencies_gathered (slots : Nat) : (gathered size slots o).latencies
    ((List.range size).map fun q => ⟨(o q).latencies.length, (o q).role⟩) =
      (List.range size).flatMap fun q => (o q).latencies := by
  have hcommon := (length_le_common hsize ho).2
  simp only [Gathered.latencies, gathered, List.length_map, List.length_range,
    rows_padded (common size o), List.zip_map', List.flatMap_map]
  rw [List.flatMap_def, List.flatMap_def]
  refine congrArg _ (List.map_congr_left fun q hq => ?_)
  exact take_padded (hcommon q (List.mem_range.mp hq)) (ho q (List.mem_range.mp hq)).samples

omit hsize ho in
theorem timesOf_gathered {slots : Nat} (hslots : 0 < slots) : (gathered size slots o).timesOf slots
    ((List.range size).map fun q => ⟨(o q).latencies.length, (o q).role⟩) =
      (List.range size).map fun q => ((o q).role, padded slots (o q).times) := by
  simp only [Gathered.timesOf, gathered, List.length_map, List.length_range, rows_padded slots,
    List.map_map, if_neg (Nat.ne_of_gt hslots)]
  exact List.zip_map'

omit hsize in
theorem ofRanks_padded (slots : Nat) : Delivery.ofRanks slots
    ((List.range size).map fun q => ((o q).role, padded slots (o q).times)) =
      (reference size slots o).deliveries := by
  have hreaders (map : Nat) : Delivery.rowsOf
      ((List.range size).map fun q => ((o q).role, padded slots (o q).times)) (.reader map) =
      (readersOf size o map).map (padded slots) := by
    rw [Delivery.rowsOf, readersOf, List.filter_map, List.map_map, List.map_map]
    rfl
  have htimely {q : Nat} (hq : q ∈ List.range size) : Delivery.Timely (o q).times := fun t ht => by
    have := (ho q (List.mem_range.mp hq)).times t ht
    omega
  rw [Delivery.ofRanks, List.filterMap_map, reference]
  refine List.filterMap_congr fun q hq => ?_
  simp only [Function.comp_apply, hreaders]
  cases (o q).role with
  | idle | reader _ => rfl
  | writer map =>
    refine congrArg some (Delivery.ofTimes_padded (htimely hq) (fun times htimes => ?_) map)
    obtain ⟨p, hp, rfl⟩ := List.mem_map.mp htimes
    exact htimely (List.mem_filter.mp hp).1

theorem report_gathered {slots : Nat} (hslots : 0 < slots) :
    (gathered size slots o).report size slots = reference size slots o := by
  simp only [Gathered.report, headers_gathered hsize ho, latencies_gathered hsize ho,
    timesOf_gathered hslots, ofRanks_padded ho, wallClock_gathered hsize ho, List.map_map]
  rfl

end

/-! ## What the reference says -/

theorem latency_reference_eq_none_iff (size slots : Nat) (o : Nat → Outcome) :
    (reference size slots o).latency = none ↔ ∀ q < size, (o q).latencies = [] := by
  simp only [reference, Option.map_eq_none_iff]
  rw [Samples.ofList]
  split <;> rename_i h
  · simpa [Except.toOption] using h
  · simpa [Except.toOption] using h

theorem count_of_latency {size slots : Nat} {o : Nat → Outcome} {s : Summary}
    (h : (reference size slots o).latency = some s) :
    s.count = ((reference size slots o).samplesPerRank).sum := by
  rw [Samples.count_of_summary h, List.length_flatMap]
  rfl

end Collection

end Lagmeter
