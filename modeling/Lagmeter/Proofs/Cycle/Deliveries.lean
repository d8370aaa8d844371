import Lagmeter.Cycle.Collection
import Mathlib.Algebra.Ring.Nat
import Mathlib.Data.List.Basic

/-!
# Deliveries in plain numbers

The times of the ranks travel as words, in lists of one length. What the root makes of them is what
follows from the recorded times themselves.
-/

namespace Lagmeter

theorem Samples.count_of_summary {samples : List Nat} {s : Summary}
    (h : (ofList samples).toOption.map summary = some s) : s.count = samples.length := by
  obtain ⟨sorted, hsorted, rfl⟩ := Option.map_eq_some_iff.mp h
  rw [ofList] at hsorted
  split at hsorted
  · cases hsorted
  · cases hsorted
    simp only [summary, count, List.length_mergeSort]

namespace Collection

/-! ## Words -/

theorem toInt_word {n : Nat} (h : n < 2 ^ 63) : (word n).toInt = n := by
  rw [word, ← Int64.toInt_toBitVec]
  simp only [UInt64.toBitVec_toInt64, BitVec.toInt_eq_toNat_cond, UInt64.toNat_toBitVec,
    UInt64.toNat_ofNat']
  omega

theorem toInt_word_eq_or_neg {n : Nat} (h : n < 2 ^ 64) : (word n).toInt = n ∨ (word n).toInt < 0 := by
  rw [word, ← Int64.toInt_toBitVec]
  simp only [UInt64.toBitVec_toInt64, BitVec.toInt_eq_toNat_cond, UInt64.toNat_toBitVec,
    UInt64.toNat_ofNat']
  omega

theorem number_word {n : Nat} (h : n < 2 ^ 64) : number (word n) = n := by
  rw [number, word, UInt64.toUInt64_toInt64]
  exact UInt64.toNat_ofNat_of_lt' h

theorem word_eq_zero {n : Nat} (h : n < 2 ^ 64) : word n = 0 ↔ n = 0 := by
  constructor
  · intro hzero
    rw [← number_word h, hzero]
    rfl
  · rintro rfl
    rfl

theorem word_eq_zero_iff {n : Nat} (h : n < 2 ^ 63) : word n = 0 ↔ n = 0 :=
  word_eq_zero (by omega)

/-! ## Lists of one length -/

theorem length_padded (length : Nat) (ns : List Nat) : (padded length ns).length = length := by
  simp only [padded, List.length_append, List.length_take, List.length_map, List.length_replicate]
  omega

theorem getD_padded {length i : Nat} (hi : i < length) (ns : List Nat) :
    (padded length ns).getD i 0 = word (ns.getD i 0) := by
  simp only [List.getD_eq_getElem?_getD, padded, List.getElem?_append, List.length_take,
    List.length_map, List.getElem?_take_of_lt hi, List.getElem?_map, List.getElem?_replicate]
  by_cases hns : i < ns.length
  · rw [if_pos (by omega)]
    simp [hns]
  · rw [if_neg (by omega), if_pos (by omega), List.getElem?_eq_none (by omega)]
    rfl

end Collection

namespace Delivery

open Collection

/-- The time that a rank recorded for a version, or zero if it did not write or see it. -/
def recorded (times : List Nat) (version : Nat) : Nat := times.getD version 0

/-- When the readers that saw a version saw it. -/
def sightings (readers : List (List Nat)) (version : Nat) : List Nat :=
  (readers.map fun times => recorded times version).filter (· ≠ 0)

/-- The time from the write of a version until the last of all readers saw it. -/
def span? (sent : List Nat) (readers : List (List Nat)) (version : Nat) : Option Nat :=
  if (sightings readers version).length = readers.length then
    (sightings readers version).max?.bind fun last =>
      if recorded sent version ≤ last then some (last - recorded sent version) else none
  else none

/-- The delivery of the versions of one writer, from the recorded times. -/
def reference (map slots : Nat) (sent : List Nat) (readers : List (List Nat)) : Delivery :=
  let versions := (List.range slots).filter fun v => recorded sent v ≠ 0
  { map
    readers := readers.length
    written := versions.length
    histogram := tally readers.length (versions.map fun v => (sightings readers v).length)
    full := (Samples.ofList (versions.filterMap (span? sent readers))).toOption.map Samples.summary }

def Timely (times : List Nat) : Prop := ∀ t ∈ times, t < 2 ^ 63

theorem Timely.recorded_lt {times : List Nat} (h : Timely times) (version : Nat) :
    recorded times version < 2 ^ 63 := by
  rw [recorded, List.getD_eq_getElem?_getD]
  cases hv : times[version]? with
  | none => exact Nat.two_pow_pos 63
  | some t => exact h t (List.mem_of_getElem? hv)

section

variable {slots version : Nat} {sent : List Nat} {readers : List (List Nat)}
  (hsent : Timely sent) (hreaders : ∀ times ∈ readers, Timely times) (hv : version < slots)

theorem timeAt_padded (hv : version < slots) (times : List Nat) :
    timeAt (padded slots times) version = word (recorded times version) := getD_padded hv times

include hreaders in
theorem sightings_lt : ∀ t ∈ sightings readers version, t < 2 ^ 63 := by
  intro t ht
  obtain ⟨times, htimes, rfl⟩ := List.mem_map.mp (List.mem_filter.mp ht).1
  exact (hreaders times htimes).recorded_lt version

include hreaders hv in
theorem seen_padded :
    seen (readers.map (padded slots)) version = (sightings readers version).map word := by
  rw [seen, List.map_map, sightings, List.filter_map, List.filter_map, List.map_map]
  refine (List.map_congr_left fun times _ => timeAt_padded hv times).trans ?_
  refine congrArg _ (List.filter_congr fun times htimes => ?_)
  simp only [Function.comp_apply, timeAt_padded hv, ne_eq,
    word_eq_zero_iff ((hreaders times htimes).recorded_lt version)]

theorem latest?_map_word {ts : List Nat} (hts : ∀ t ∈ ts, t < 2 ^ 63) :
    latest? (ts.map word) = ts.max?.map Int.ofNat := by
  cases ts with
  | nil => rfl
  | cons t ts =>
    rw [List.map_cons, latest?, List.max?_cons', Option.map_some, toInt_word (hts t List.mem_cons_self)]
    congr 1
    have hrest := fun u hu => hts u (List.mem_cons_of_mem t hu)
    clear hts
    induction ts generalizing t with
    | nil => rfl
    | cons u ts ih =>
      rw [List.map_cons, List.foldl_cons, List.foldl_cons, toInt_word (hrest u List.mem_cons_self),
        show max (t : Int) (u : Int) = ((max t u : Nat) : Int) by omega]
      exact ih (max t u) fun x hx => hrest x (List.mem_cons_of_mem _ hx)

include hsent hreaders hv in
theorem fullTime?_padded :
    fullTime? (padded slots sent) (readers.map (padded slots)) version = span? sent readers version := by
  have hstart := toInt_word (hsent.recorded_lt version)
  simp only [fullTime?, span?, seen_padded hreaders hv, List.length_map,
    latest?_map_word (sightings_lt hreaders), timeAt_padded hv, hstart]
  by_cases hall : (sightings readers version).length = readers.length
  · rw [if_neg (by simpa using hall), if_pos hall]
    cases (sightings readers version).max? with
    | none => rfl
    | some last =>
      show (if (recorded sent version : Int) ≤ (last : Int) then
          some ((last : Int) - recorded sent version).toNat else none) =
        if recorded sent version ≤ last then some (last - recorded sent version) else none
      simp only [Int.ofNat_le, Int.toNat_sub]
  · rw [if_pos hall, if_neg hall]

include hsent hreaders in
theorem ofTimes_padded (map : Nat) :
    ofTimes map slots (padded slots sent) (readers.map (padded slots)) =
      reference map slots sent readers := by
  have hwritten : writtenOf slots (padded slots sent) =
      (List.range slots).filter fun v => recorded sent v ≠ 0 := by
    rw [writtenOf, length_padded, Nat.min_self]
    refine List.filter_congr fun v hv => ?_
    rw [timeAt_padded (List.mem_range.mp hv), decide_eq_decide, ne_eq, ne_eq,
      word_eq_zero_iff (hsent.recorded_lt v)]
  have hslot {v : Nat} (hv : v ∈ (List.range slots).filter fun v => recorded sent v ≠ 0) :
      v < slots := List.mem_range.mp (List.mem_filter.mp hv).1
  simp only [ofTimes, reference, hwritten, List.length_map, Delivery.mk.injEq, true_and]
  constructor
  · refine congrArg _ (List.map_congr_left fun v hv => ?_)
    rw [seen_padded hreaders (hslot hv), List.length_map]
  · rw [List.filterMap_congr fun v hv => fullTime?_padded hsent hreaders (hslot hv)]

end

end Delivery

end Lagmeter
