import Lagmeter.Proofs.Crew.Concert
import Lagmeter.Proofs.Cycle.Aggregation
import Lagmeter.Proofs.Group.Mesh

/-!
# Totals

The root adds up what the ranks have counted, one rank after the other, and the sum stays within the
range of a word. A number in the upper half of its range travels as a word below zero, so that it makes
the total less. Without such a number the total is the sum of all, as far as it fits, whatever the order.
-/

namespace Lagmeter

/-- An outcome whose counts and number of samples fit in words. -/
structure Outcome.Countable (o : Outcome) : Prop where
  latencies : o.latencies.length < 2 ^ 63
  invalid : o.invalid < 2 ^ 64
  missed : o.missed < 2 ^ 64
  failures : o.failures < 2 ^ 64

namespace Collection

/-! ## Running totals -/

/-- The number that the word of `n` stands for. -/
def signed (n : Nat) : Int := if n < 2 ^ 63 then n else n - 2 ^ 64

/-- A number cut to the range of words. -/
def within (x : Int) : Int := max (-2 ^ 63) (min (2 ^ 63 - 1) x)

/-- The sum of some counts, cut to the range of words after each of them. -/
def runningTotal (counts : List Nat) : Int :=
  counts.foldl (fun sum n => within (sum + signed n)) 0

theorem toInt_word_eq_signed {n : Nat} (h : n < 2 ^ 64) : (word n).toInt = signed n := by
  unfold signed
  split
  · exact toInt_word ‹_›
  · rw [word, ← Int64.toInt_toBitVec]
    simp only [UInt64.toBitVec_toInt64, BitVec.toInt_eq_toNat_cond, UInt64.toNat_toBitVec,
      UInt64.toNat_ofNat']
    omega

theorem toInt_saturatingAdd_eq_within (a b : Int64) :
    (Collective.saturatingAdd a b).toInt = within (a.toInt + b.toInt) :=
  Collective.toInt_saturatingAdd a b

theorem toInt_foldl_words {counts : List Nat} (h : ∀ n ∈ counts, n < 2 ^ 64) (sum : Int64) :
    ((counts.map word).foldl Collective.saturatingAdd sum).toInt =
      counts.foldl (fun sum n => within (sum + signed n)) sum.toInt := by
  induction counts generalizing sum with
  | nil => rfl
  | cons n counts ih =>
    rw [List.map_cons, List.foldl_cons, ih fun m hm => h m (List.mem_cons_of_mem n hm),
      toInt_saturatingAdd_eq_within, toInt_word_eq_signed (h n List.mem_cons_self), List.foldl_cons]

theorem total_eq {size : Nat} {o : Nat → Outcome} {count : Outcome → Nat}
    (h : ∀ q < size, count (o q) < 2 ^ 64) :
    total size o count = (runningTotal ((List.range size).map fun q => count (o q))).toNat := by
  have hcounts : ∀ n ∈ (List.range size).map fun q => count (o q), n < 2 ^ 64 := by
    simpa using h
  have hfold := toInt_foldl_words hcounts 0
  rw [List.map_map] at hfold
  rw [total, Reduction.reference_sum]
  exact congrArg Int.toNat hfold

theorem runningTotal_concat (counts : List Nat) (n : Nat) :
    runningTotal (counts ++ [n]) = within (runningTotal counts + signed n) := by
  simp [runningTotal]

theorem runningTotal_le (counts : List Nat) : runningTotal counts ≤ 2 ^ 63 - 1 := by
  cases counts using List.reverseRecOn with
  | nil => decide
  | append_singleton counts n =>
    rw [runningTotal_concat]
    unfold within
    omega

theorem runningTotal_eq_min {counts : List Nat} (h : ∀ n ∈ counts, n < 2 ^ 63) :
    runningTotal counts = min (counts.sum : Int) (2 ^ 63 - 1) := by
  induction counts using List.reverseRecOn with
  | nil => decide
  | append_singleton counts n ih =>
    have hn : n < 2 ^ 63 := h n (by simp)
    rw [runningTotal_concat, ih fun m hm => h m (List.mem_append_left _ hm), signed, if_pos hn,
      List.sum_append, List.sum_singleton]
    unfold within
    omega

theorem runningTotal_concat_lt {n : Nat} (hlow : 2 ^ 63 ≤ n) (hhigh : n < 2 ^ 64)
    (counts : List Nat) : runningTotal (counts ++ [n]) < 2 ^ 63 - 1 := by
  have hle := runningTotal_le counts
  rw [runningTotal_concat, signed, if_neg (by omega)]
  unfold within
  omega

theorem small_iff_exact {counts : List Nat} (h : ∀ n ∈ counts, n < 2 ^ 64) :
    (∀ n ∈ counts, n < 2 ^ 63) ↔ ∀ counts' : List Nat, counts'.Perm counts →
      (runningTotal counts').toNat = min counts.sum (2 ^ 63 - 1) := by
  constructor
  · intro hsmall counts' hperm
    rw [runningTotal_eq_min fun n hn => hsmall n (hperm.mem_iff.mp hn), hperm.sum_eq]
    omega
  · intro hexact n hn
    refine Nat.lt_of_not_le fun hle => ?_
    -- With the great count at the end, the total cannot be as much as that count alone.
    have hlast : (counts.erase n ++ [n]).Perm counts :=
      List.perm_append_comm.trans (List.perm_cons_erase hn).symm
    have hlt := runningTotal_concat_lt hle (h n hn) (counts.erase n)
    have hsum := hlast.sum_eq
    rw [List.sum_append, List.sum_singleton] at hsum
    have := hexact _ hlast
    omega

/-- What becomes of the counts of all ranks. -/
structure Totalled (counts : List Nat) (total : Nat) : Prop where
  total_eq : total = (runningTotal counts).toNat
  exact_iff : (∀ n ∈ counts, n < 2 ^ 63) ↔
    ∀ counts' : List Nat, counts'.Perm counts →
      (runningTotal counts').toNat = min counts.sum (2 ^ 63 - 1)

theorem totalled_total {size : Nat} {o : Nat → Outcome} {count : Outcome → Nat}
    (h : ∀ q < size, count (o q) < 2 ^ 64) :
    Totalled ((List.range size).map fun q => count (o q)) (total size o count) where
  total_eq := total_eq h
  exact_iff := small_iff_exact (by simpa using h)

/-! ## The totals of a report -/

variable {C : Carrier} {g : Roster} {slots : Nat} {o : Nat → Outcome} {base : Nat}

theorem done_of_collect {lines : C.State → Lines} (hC : C.Faithful g.size lines) {t : C.State}
    (ht : (lines t).Fresh g.size) (hsize : 0 < g.size) (slots : Nat)
    (hlatencies : (o 0).latencies.length < 2 ^ 63)
    {n : Net C (Except GroupError (Option Aggregate) × Nat)}
    (hn : (⟨t, fun r => (collect (g.member r) slots (o r)).start base⟩ : Net C _).Reaches g.size n) :
    ((∃ n', n.Step g.size n') ∨ ∀ r < g.size, ∃ x, n.talk r = .done x) ∧
    ∀ r < g.size, ∀ x, n.talk r = .done x → x = (.ok (if r = 0 then
      some ((gathered g.size slots o).report g.size slots) else none), base + 10) := by
  have hcommon : 0 ≤ (commonWord g.size o).toInt := by
    have hle := le_commonWord hsize (o := o) hsize
    rw [toInt_word hlatencies] at hle
    omega
  obtain ⟨hprogress, hdone⟩ := Net.done_of_gives hC ht (granted_script hsize slots o)
    (fun r hr conduct => gives_collect slots hr hcommon) hn
  refine ⟨hprogress, fun r hr x hx => ?_⟩
  obtain ⟨a, rfl, rfl⟩ := hdone r hr x hx
  rfl

/-- A total is exact, as far as it fits, just in case no count is 2 ^ 63 or more. -/
theorem totals_of_collect {lines : C.State → Lines} (hC : C.Faithful g.size lines) {t : C.State}
    (ht : (lines t).Fresh g.size) (hsize : 0 < g.size) (slots : Nat)
    (ho : ∀ q < g.size, (o q).Countable) (base : Nat) :
    WellFounded (fun n' n : Net C (Except GroupError (Option Aggregate) × Nat) =>
      n.Step g.size n') ∧
    ∃ report : Aggregate,
      (∀ n, (net g t slots o base).Reaches g.size n →
        ((∃ n', n.Step g.size n') ∨ ∀ r < g.size, ∃ x, n.talk r = .done x) ∧
        ∀ r < g.size, ∀ x, n.talk r = .done x →
          x = (.ok (if r = 0 then some report else none), base + 10)) ∧
      Totalled ((List.range g.size).map fun q => (o q).invalid) report.invalid ∧
      Totalled ((List.range g.size).map fun q => (o q).missed) report.missed ∧
      Totalled ((List.range g.size).map fun q => (o q).failures) report.failures := by
  refine ⟨Net.wellFounded_step, (gathered g.size slots o).report g.size slots, fun n hn => ?_, ?_, ?_, ?_⟩
  · exact done_of_collect hC ht hsize slots (ho 0 hsize).latencies hn
  · exact totalled_total fun q hq => (ho q hq).invalid
  · exact totalled_total fun q hq => (ho q hq).missed
  · exact totalled_total fun q hq => (ho q hq).failures

/-- Two readers that missed more versions than a word holds. -/
def brimming (r : Nat) : Outcome :=
  if r = 0 then { role := .reader 0, missed := 2 ^ 63 - 1, failures := 5 }
  else { role := .reader 0, missed := 7, failures := 2 ^ 64 - 2 }

theorem totals_of_brimming : (∀ q < 2, (brimming q).Countable) ∧
    ∃ n report, (net Assembly.pair (Mesh.fresh 2) 1 brimming 0).Reaches 2 n ∧
      n.talk 0 = .done (.ok (some report), 10) ∧ report.missed = 2 ^ 63 - 1 ∧ report.failures = 3 := by
  have hcountable : ∀ q < 2, (brimming q).Countable
    | 0, _ | 1, _ => ⟨by decide, by decide, by decide, by decide⟩
  obtain ⟨-, report, hnet, -, hmissed, hfailures⟩ := totals_of_collect (g := Assembly.pair)
    (Mesh.faithful 2) (Mesh.fresh_lines 2) (by decide) 1 hcountable 0
  obtain ⟨n, hn, hdone⟩ := exists_end_of_wellFounded Net.wellFounded_step _ fun n hn => (hnet n hn).1
  obtain ⟨x, hx⟩ := hdone 0 (by decide)
  obtain rfl := (hnet n hn).2 0 (by decide) x hx
  refine ⟨hcountable, n, report, hn, hx, ?_, ?_⟩
  · rw [hmissed.total_eq]
    decide
  · rw [hfailures.total_eq]
    decide

/-- Two readers, the second of which has missed as many versions as there can be. -/
def jumped (r : Nat) : Outcome := { role := .reader 0, missed := if r = 0 then 5 else 2 ^ 64 - 2 }

/-- A great count can make the total less than what the other rank alone has counted. -/
theorem not_always_saturated : ∃ n report,
    (net Assembly.pair (Mesh.fresh 2) 1 jumped 0).Reaches 2 n ∧
      n.talk 0 = .done (.ok (some report), 10) ∧ report.missed = 3 ∧
      min ((List.range 2).map fun q => (jumped q).missed).sum (2 ^ 63 - 1) = 2 ^ 63 - 1 := by
  have hnet (n) (hn : (net Assembly.pair (Mesh.fresh 2) 1 jumped 0).Reaches 2 n) :=
    done_of_collect (g := Assembly.pair) (o := jumped) (Mesh.faithful 2) (Mesh.fresh_lines 2)
      (by decide) 1 (by decide) hn
  obtain ⟨n, hn, hdone⟩ := exists_end_of_wellFounded Net.wellFounded_step _ fun n hn => (hnet n hn).1
  obtain ⟨x, hx⟩ := hdone 0 (by decide)
  obtain rfl := (hnet n hn).2 0 (by decide) x hx
  exact ⟨n, _, hn, hx, by decide, by decide⟩

end Collection

end Lagmeter
