import Lagmeter.Proofs.Node.Publishing

/-!
# A writer and its retries

Setup and run of a writer together publish each version at most once and in order, whatever the store
refuses. Both phases may stop early, and each on its own. What the writer counts and records is what
it submitted.
-/

namespace Lagmeter

open Submission Delivery Ledger

namespace Writer

/-- A writer that submitted these samples in its setup and in its run, and what its run came to. -/
structure Orderly (plan : WriterSettings) (setup run : List Submission) (w : Writer)
    (result : Except Fault Unit) : Prop where
  versions : ∃ m ≤ plan.warmup, ∃ n ≤ plan.writes, (takenOf (setup ++ run)).map Sample.version =
    List.range' 1 m ++ List.range' (plan.warmup + 1) n
  rising : (takenOf (setup ++ run)).Pairwise fun (p q : Sample) => p.version < q.version
  retries : (setup ++ run).Pairwise Precedes
  patient : ∀ v, (setup ++ run).countP (·.version = v) ≤ patience
  failures : w.failedWrites = (setup ++ run).countP (!·.taken)
  ok : result.isOk = true ↔ plan.perInterval ≠ 0 ∧
    ∀ i < plan.writes, plan.warmup + 1 + i ∈ (takenOf (setup ++ run)).map Sample.version
  error : result.isOk = false ↔ plan.perInterval = 0 ∨ ∃ v, run.countP (·.Refuses v) = patience
  length : w.times.length = plan.writes
  unwritten : ∀ i < plan.writes, recorded w.times i ≠ 0 ↔
    plan.warmup + 1 + i ∈ (takenOf (setup ++ run)).map Sample.version
  written : ∀ i < plan.writes, ∀ p ∈ takenOf (setup ++ run), p.version = plan.warmup + 1 + i →
    recorded w.times i = p.writtenAt

variable {plan : WriterSettings} {before after : WorkTrace} {setup run : List Submission}
  {w w' : Writer} {result result' : Except Fault Unit} {log : List Sample} {bound i : Nat}

/-! ## Setup and run -/

section

variable (hsetup : Part plan.warmup 1 setup) (hrun : Part plan.writes (plan.warmup + 1) run)
include hsetup hrun

theorem versions_of_parts : ∃ m ≤ plan.warmup, ∃ n ≤ plan.writes,
    (takenOf (setup ++ run)).map Sample.version =
      List.range' 1 m ++ List.range' (plan.warmup + 1) n := by
  obtain ⟨m, hm, hversions⟩ := hsetup.versions
  obtain ⟨n, hn, hversions'⟩ := hrun.versions
  refine ⟨m, hm, n, hn, ?_⟩
  rw [takenOf_append, List.map_append, hversions, hversions']

theorem rising_of_parts :
    (takenOf (setup ++ run)).Pairwise fun (p q : Sample) => p.version < q.version := by
  obtain ⟨m, hm, n, -, hversions⟩ := versions_of_parts hsetup hrun
  refine List.pairwise_map.mp (hversions ▸ List.pairwise_append.mpr
    ⟨List.pairwise_lt_range', List.pairwise_lt_range', fun v hv u hu => ?_⟩)
  rw [List.mem_range'_1] at hv hu
  omega

end

theorem measured_of_part (hsetup : Part plan.warmup 1 setup) (i : Nat) :
    plan.warmup + 1 + i ∈ (takenOf (setup ++ run)).map Sample.version ↔
      plan.warmup + 1 + i ∈ (takenOf run).map Sample.version := by
  obtain ⟨m, hm, hversions⟩ := hsetup.versions
  rw [takenOf_append, List.map_append, List.mem_append, hversions, List.mem_range'_1]
  exact or_iff_right (by omega)

/-! ## Times -/

theorem timeOf_eq_zero {published : List Sample} {version : Nat}
    (h : version ∉ published.map Sample.version) : timeOf published version = 0 := by
  have hnone : published.find? (fun p => p.version = version) = none := by
    simp only [List.find?_eq_none, decide_eq_true_eq]
    exact fun p hp heq => h (heq ▸ List.mem_map_of_mem hp)
  rw [timeOf, hnone]
  rfl

section

variable (h : w.Tracks plan log bound)
  (hrising : log.Pairwise fun (p q : Sample) => p.version < q.version) (hi : i < plan.writes)
include h hrising hi

theorem Tracks.recorded_eq {p : Sample} (hp : p ∈ log) (hversion : p.version = plan.warmup + 1 + i) :
    recorded w.times i = p.writtenAt := by
  rw [h.times i hi, Nat.add_right_comm, ← hversion, timeOf_of_mem hrising hp]

theorem Tracks.recorded_ne_zero_iff (hpositive : ∀ p ∈ log, 0 < p.writtenAt) :
    recorded w.times i ≠ 0 ↔ plan.warmup + 1 + i ∈ log.map Sample.version := by
  refine ⟨fun htime => by_contra fun hnone => htime ?_, fun hmem => ?_⟩
  · rw [h.times i hi, Nat.add_right_comm, timeOf_eq_zero hnone]
  · obtain ⟨p, hp, hversion⟩ := List.mem_map.mp hmem
    rw [h.recorded_eq hrising hi hp hversion]
    exact Nat.ne_of_gt (hpositive p hp)

end

/-! ## The whole -/

/-- A store that takes every version but one, and a clock that stands still. -/
def refusing (version : Nat) : (call : WorkCall) → call.Answer
  | .store (.publish p) =>
    if p.version = version then (.error (.closed "probe") : Except StoreError Unit) else .ok ()
  | call => Work.steady ⟨0, 0⟩ 7 call

end Writer

end Lagmeter
