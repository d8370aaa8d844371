import Lagmeter.Proofs.Delivery.Counting
import Mathlib.Algebra.BigOperators.Group.Finset.Piecewise
import Mathlib.Algebra.BigOperators.Group.Finset.Sigma
import Mathlib.Data.List.Forall2
import Mathlib.Order.Bounds.Basic

/-!
# The entries of a report

The report has one entry for each writer. What an entry says is read off the recorded times, which make
a table with one row for each rank: how many readers there are, which versions were written, and how many
of the readers saw each of them. Rows may be of any length, and ranks without one are left out.
-/

namespace Lagmeter.Delivery

/-! ## The table -/

section

variable (slots : Nat) (roles : List Role) (rows : List (List Int64))

/-- What rank `r` recorded for a version, or zero where its row is over. -/
def cell (r v : Nat) : Int64 := timeAt (rows.getD r []) v

def readersOf (map : Nat) : Finset Nat :=
  (Finset.range rows.length).filter fun r => roles[r]? = some (.reader map)

/-- The ranks that write, in their order, each with its map. -/
def writers : List (Nat × Nat) :=
  (List.range rows.length).filterMap fun r => match (roles[r]? : Option Role) with
    | some (.writer map) => some (r, map)
    | _ => none

/-- The versions that rank `w` has written. -/
def versionsOf (w : Nat) : Finset Nat := (Finset.range slots).filter fun v => cell rows w v ≠ 0

/-- All readers of the map saw version `v`, and the last of them saw it `x` after rank `w` had written it.
-/
structure Spans (w map v x : Nat) : Prop where
  all : ∀ r ∈ readersOf roles rows map, cell rows r v ≠ 0
  last : IsGreatest ((fun r => (cell rows r v).toInt) '' readersOf roles rows map)
    ((cell rows w v).toInt + x)

/-- The entry of rank `w`, which writes to `map`. -/
structure Entry (w map : Nat) (d : Delivery) : Prop where
  map_eq : d.map = map
  readers_eq : d.readers = (readersOf roles rows map).card
  written_eq : d.written = (versionsOf slots rows w).card
  increasing : (d.histogram.map Prod.fst).Pairwise (· < ·)
  bounded : ∀ x ∈ d.histogram, x.1 ≤ d.readers ∧ 0 < x.2
  /-- A number stands beside how many versions were seen by so many readers. -/
  counted : ∀ k n, (k, n) ∈ d.histogram ↔ 0 < n ∧ n = ((versionsOf slots rows w).filter fun v =>
    ((readersOf roles rows map).filter fun r => cell rows r v ≠ 0).card = k).card
  sum_counts : (d.histogram.map Prod.snd).sum = d.written
  /-- All that was written by the one and seen by another. -/
  sum_seen : (d.histogram.map fun x => x.1 * x.2).sum =
    ((readersOf roles rows map ×ˢ versionsOf slots rows w).filter fun p => cell rows p.1 p.2 ≠ 0).card
  full_eq : ∃ spans : List (Nat × Nat), (spans.map Prod.fst).Pairwise (· < ·) ∧
    (∀ v x, (v, x) ∈ spans ↔ v ∈ versionsOf slots rows w ∧ Spans roles rows w map v x) ∧
    d.full = (Samples.ofList (spans.map Prod.snd)).toOption.map Samples.summary
  full_le : ∀ s, d.full = some s → ∃ n, (d.readers, n) ∈ d.histogram ∧ s.count ≤ n

end

/-! ## The times of one writer and its readers -/

section

variable {slots : Nat} {sent : List Int64} {readers : List (List Int64)}

theorem writtenOf_eq (slots : Nat) (sent : List Int64) :
    writtenOf slots sent = (List.range slots).filter fun v => timeAt sent v ≠ 0 := by
  have hover : ∀ v, sent.length ≤ v → timeAt sent v = 0 := by
    intro v hv
    simp [timeAt, List.getD_eq_getElem?_getD, hv]
  rcases Nat.le_total slots sent.length with hle | hle
  · rw [writtenOf, Nat.min_eq_left hle]
  · obtain ⟨rest, rfl⟩ := Nat.exists_eq_add_of_le hle
    rw [writtenOf, Nat.min_eq_right hle, List.range_add, List.filter_append, List.filter_map]
    simp [Function.comp_def, hover]

theorem seen_of_all {v : Nat} (h : ∀ row ∈ readers, timeAt row v ≠ 0) :
    seen readers v = readers.map fun row => timeAt row v := by
  rw [seen, List.filter_eq_self]
  simpa using h

theorem length_seen_eq_iff {v : Nat} :
    (seen readers v).length = readers.length ↔ ∀ row ∈ readers, timeAt row v ≠ 0 := by
  simp [length_seen, List.length_filter_eq_length_iff]

theorem length_seen_le (readers : List (List Int64)) (v : Nat) :
    (seen readers v).length ≤ readers.length := by
  rw [length_seen]
  exact List.length_filter_le ..

theorem latest?_eq (ts : List Int64) : latest? ts = (ts.map Int64.toInt).max? := by
  cases ts with
  | nil => rfl
  | cons t ts => rw [latest?, List.map_cons, List.max?_cons', List.foldl_map]

theorem latest?_eq_some {ts : List Int64} {last : Int} :
    latest? ts = some last ↔ IsGreatest {t | t ∈ ts.map Int64.toInt} last := by
  rw [latest?_eq, List.max?_eq_some_iff]
  rfl

theorem fullTime?_eq_some {v x : Nat} : fullTime? sent readers v = some x ↔
    (∀ row ∈ readers, timeAt row v ≠ 0) ∧
      IsGreatest {t | t ∈ readers.map fun row => (timeAt row v).toInt} ((timeAt sent v).toInt + x) := by
  by_cases hall : ∀ row ∈ readers, timeAt row v ≠ 0
  · have hlength := length_seen_eq_iff.mpr hall
    have htimes : (seen readers v).map Int64.toInt = readers.map fun row => (timeAt row v).toInt := by
      rw [seen_of_all hall, List.map_map]
      rfl
    rw [← htimes, ← latest?_eq_some]
    simp only [fullTime?, hlength, ne_eq, not_true_eq_false, if_false]
    cases latest? (seen readers v) with
    | none => simp
    | some last =>
      simp only [Option.ite_none_right_eq_some, Option.some.injEq]
      constructor
      · rintro ⟨hle, rfl⟩
        exact ⟨hall, by omega⟩
      · rintro ⟨-, rfl⟩
        omega
  · have hlength := mt length_seen_eq_iff.mp hall
    simp [fullTime?, hlength, hall]

theorem length_fullTimes_le (sent : List Int64) (readers : List (List Int64)) (versions : List Nat) :
    (versions.filterMap (fullTime? sent readers)).length ≤
      (versions.map fun v => (seen readers v).length).count readers.length := by
  rw [List.length_filterMap_eq_countP, List.count_eq_countP, List.countP_map]
  refine List.countP_mono_left fun v _ hv => ?_
  obtain ⟨x, hx⟩ := Option.isSome_iff_exists.mp hv
  simpa using length_seen_eq_iff.mpr (fullTime?_eq_some.mp hx).1

/-! ## What the delivery of one writer says -/

theorem seen_bound (slots : Nat) (sent : List Int64) (readers : List (List Int64)) :
    ∀ n ∈ (writtenOf slots sent).map fun v => (seen readers v).length, n ≤ readers.length :=
  List.forall_mem_map.mpr fun v _ => length_seen_le readers v

theorem mem_histogram {map k n : Nat} : (k, n) ∈ (ofTimes map slots sent readers).histogram ↔
    0 < n ∧ n = ((writtenOf slots sent).map fun v => (seen readers v).length).count k := by
  refine mem_tally.trans ⟨fun h => h.2, fun h => ⟨?_, h⟩⟩
  obtain ⟨hpos, rfl⟩ := h
  exact seen_bound slots sent readers k (List.count_pos_iff.mp hpos)

theorem exists_spans (map slots : Nat) (sent : List Int64) (readers : List (List Int64)) :
    ∃ spans : List (Nat × Nat), (spans.map Prod.fst).Pairwise (· < ·) ∧
      (∀ v x, (v, x) ∈ spans ↔ v ∈ writtenOf slots sent ∧ fullTime? sent readers v = some x) ∧
      (ofTimes map slots sent readers).full =
        (Samples.ofList (spans.map Prod.snd)).toOption.map Samples.summary := by
  refine ⟨(writtenOf slots sent).filterMap fun v => (fullTime? sent readers v).map fun x => (v, x),
    ?_, ?_, ?_⟩
  · rw [List.map_filterMap, writtenOf_eq]
    refine (List.pairwise_lt_range.filter _).filterMap _ fun v v' hlt => ?_
    simp only [Option.map_map, Option.map_eq_some_iff]
    rintro _ ⟨x, -, rfl⟩ _ ⟨x', -, rfl⟩
    exact hlt
  · intro v x
    simp only [List.mem_filterMap, Option.map_eq_some_iff, Prod.mk.injEq]
    constructor
    · rintro ⟨v, hv, x, hx, rfl, rfl⟩
      exact ⟨hv, hx⟩
    · rintro ⟨hv, hx⟩
      exact ⟨v, hv, x, hx, rfl, rfl⟩
  · rw [List.map_filterMap]
    simp [ofTimes, Function.comp_def]

theorem full_le_histogram {map : Nat} {s : Summary}
    (hs : (ofTimes map slots sent readers).full = some s) :
    ∃ n, (readers.length, n) ∈ (ofTimes map slots sent readers).histogram ∧ s.count ≤ n := by
  have hle := length_fullTimes_le sent readers (writtenOf slots sent)
  have hpos : 0 < ((writtenOf slots sent).filterMap (fullTime? sent readers)).length := by
    refine List.length_pos_iff.mpr fun hnone => ?_
    rw [ofTimes, hnone] at hs
    cases hs
  refine ⟨_, mem_histogram.mpr ⟨Nat.lt_of_lt_of_le hpos hle, rfl⟩, ?_⟩
  rwa [Samples.count_of_summary hs]

end

/-! ## The rows of a table -/

section

variable (slots : Nat) (roles : List Role) (rows : List (List Int64)) (w map : Nat)

theorem zip_eq : roles.zip rows =
    (List.range rows.length).filterMap fun r => roles[r]?.map fun role => (role, rows.getD r []) := by
  induction rows generalizing roles with
  | nil => simp
  | cons row rows ih =>
    cases roles with
    | nil => simp
    | cons role roles =>
      rw [List.zip_cons_cons, ih, List.length_cons, List.range_succ_eq_map, List.filterMap_cons,
        List.filterMap_map]
      simp

/-- The rows of the readers of a map, in the order of the ranks. -/
def readerRows : List (List Int64) :=
  ((List.range rows.length).filter fun r => roles[r]? = some (.reader map)).map fun r => rows.getD r []

theorem length_readerRows : (readerRows roles rows map).length = (readersOf roles rows map).card :=
  List.length_map _

theorem rowsOf_zip : rowsOf (roles.zip rows) (.reader map) = readerRows roles rows map := by
  rw [rowsOf, zip_eq, readerRows, List.filter_filterMap, List.map_filterMap, ← List.filterMap_eq_filter,
    List.map_filterMap]
  refine List.filterMap_congr fun r _ => ?_
  cases hr : roles[r]? with
  | none => simp [hr, Option.guard]
  | some role => by_cases hrole : role = .reader map <;> simp [hr, hrole, Option.guard, Option.filter]

theorem ofRanks_zip : ofRanks slots (roles.zip rows) = (writers roles rows).map fun x =>
    ofTimes x.2 slots (rows.getD x.1 []) (readerRows roles rows x.2) := by
  simp only [ofRanks, rowsOf_zip]
  rw [zip_eq, List.filterMap_filterMap, writers, List.map_filterMap]
  refine List.filterMap_congr fun r _ => ?_
  cases roles[r]? with
  | none => rfl
  | some role => cases role <;> rfl

theorem length_seen_rows (v : Nat) : (seen (readerRows roles rows map) v).length =
    ((readersOf roles rows map).filter fun r => cell rows r v ≠ 0).card := by
  rw [length_seen, readerRows, List.filter_map, List.length_map]
  rfl

theorem writtenOf_row : writtenOf slots (rows.getD w []) =
    (List.range slots).filter fun v => cell rows w v ≠ 0 := writtenOf_eq _ _

theorem mem_writtenOf_row (v : Nat) :
    v ∈ writtenOf slots (rows.getD w []) ↔ v ∈ versionsOf slots rows w := by
  rw [writtenOf_row]
  simp [versionsOf]

theorem fullTime?_rows (v x : Nat) :
    fullTime? (rows.getD w []) (readerRows roles rows map) v = some x ↔ Spans roles rows w map v x := by
  have hmem (r : Nat) : (r ∈ (List.range rows.length).filter fun r => roles[r]? = some (.reader map)) ↔
      r ∈ readersOf roles rows map := by simp [readersOf]
  have hset : {t | t ∈ (readerRows roles rows map).map fun row => (timeAt row v).toInt} =
      (fun r => (cell rows r v).toInt) '' readersOf roles rows map := by
    ext t
    simp only [readerRows, List.map_map, Set.mem_ofPred_eq, List.mem_map, hmem]
    rfl
  rw [fullTime?_eq_some, hset, readerRows, List.forall_mem_map]
  simp only [hmem]
  exact ⟨fun h => ⟨h.1, h.2⟩, fun h => ⟨h.all, h.last⟩⟩

theorem count_seen_rows (k : Nat) : ((writtenOf slots (rows.getD w [])).map fun v =>
    (seen (readerRows roles rows map) v).length).count k = ((versionsOf slots rows w).filter fun v =>
      ((readersOf roles rows map).filter fun r => cell rows r v ≠ 0).card = k).card := by
  simp only [length_seen_rows]
  rw [List.count_eq_countP, List.countP_map, List.countP_eq_length_filter, writtenOf_row]
  rfl

theorem sum_seen_rows : ((writtenOf slots (rows.getD w [])).map fun v =>
    (seen (readerRows roles rows map) v).length).sum =
      ((readersOf roles rows map ×ˢ versionsOf slots rows w).filter fun p =>
        cell rows p.1 p.2 ≠ 0).card := by
  have hsum (f : Nat → Nat) : ((writtenOf slots (rows.getD w [])).map f).sum =
      ∑ v ∈ versionsOf slots rows w, f v := by
    rw [writtenOf_row]
    rfl
  simp only [length_seen_rows, hsum, Finset.card_filter]
  rw [Finset.sum_product_right]

theorem entry_ofTimes : Entry slots roles rows w map
    (ofTimes map slots (rows.getD w []) (readerRows roles rows map)) where
  map_eq := rfl
  readers_eq := length_readerRows roles rows map
  written_eq := by
    rw [ofTimes, writtenOf_row]
    rfl
  increasing := keys_tally _ _
  bounded := by
    rintro ⟨k, n⟩ hk
    obtain ⟨hle, hpos, -⟩ := mem_tally.mp hk
    exact ⟨hle, hpos⟩
  counted k n := by rw [mem_histogram, count_seen_rows]
  sum_counts := (sum_counts_tally (seen_bound _ _ _)).trans (List.length_map _)
  sum_seen := (sum_tally (seen_bound _ _ _)).trans (sum_seen_rows slots roles rows w map)
  full_eq := by
    obtain ⟨spans, hincreasing, hmem, hfull⟩ :=
      exists_spans map slots (rows.getD w []) (readerRows roles rows map)
    refine ⟨spans, hincreasing, fun v x => ?_, hfull⟩
    rw [hmem, mem_writtenOf_row, fullTime?_rows]
  full_le _ hs := full_le_histogram hs

end

/-! ## The report -/

theorem filter_ofRanks (slots : Nat) (ranks : List (Role × List Int64)) (map : Nat) :
    (ofRanks slots ranks).filter (·.map = map) = ofRanks slots (ranks.filter (·.1.map? = some map)) := by
  have hrows : rowsOf (ranks.filter (·.1.map? = some map)) (.reader map) = rowsOf ranks (.reader map) := by
    rw [rowsOf, List.filter_filter, rowsOf]
    refine congrArg _ (List.filter_congr fun x _ => ?_)
    by_cases hx : x.1 = .reader map <;> simp [hx, Role.map?]
  rw [ofRanks, ofRanks, List.filter_filterMap, List.filterMap_filter]
  refine List.filterMap_congr fun x _ => ?_
  obtain ⟨role, sent⟩ := x
  cases role with
  | idle => rfl
  | reader m => simp
  | writer m =>
    by_cases hm : m = map
    · subst hm
      rw [if_pos (by simp [Role.map?])]
      simp only [hrows]
      simp [ofTimes]
    · rw [if_neg (by simp [Role.map?, hm])]
      simp [ofTimes, hm]

/-- The report has one entry for each rank that writes, which says what the recorded times come to. -/
theorem entries_of_ranks (slots : Nat) (roles : List Role) (rows : List (List Int64)) :
    List.Forall₂ (fun x d => Entry slots roles rows x.1 x.2 d) (writers roles rows)
      (ofRanks slots (roles.zip rows)) ∧
    ∀ map, (ofRanks slots (roles.zip rows)).filter (·.map = map) =
      ofRanks slots ((roles.zip rows).filter (·.1.map? = some map)) := by
  refine ⟨?_, filter_ofRanks slots (roles.zip rows)⟩
  rw [ofRanks_zip, List.forall₂_map_right_iff, List.forall₂_same]
  exact fun x _ => entry_ofTimes slots roles rows x.1 x.2

end Lagmeter.Delivery
