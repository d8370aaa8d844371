import Lagmeter.Proofs.Cycle.Crew
import Lagmeter.Proofs.Group.Mesh

/-!
# Cycles of whole groups

Where all ranks of a group are there, no node can hold up a cycle or bring the ranks out of step,
whichever of its calls fail. A rank keeps the failures of its own node and no others.
-/

namespace Lagmeter.Cycle

variable {C : Carrier} {g : Roster} {plan : CyclePlan}

/-- In a whole group every rank comes to its end, with the failures of its own node and no others. -/
theorem own_failures_only {lines : C.State → Lines} (hC : C.Faithful g.size lines) {t : C.State}
    (ht : (lines t).Fresh g.size) (hsize : 0 < g.size) (hword : g.size < 2 ^ 64)
    (hrounds : g.size ≤ plan.rounds) {conduct : Nat → Conduct}
    (hlatencies : ∀ q < g.size, (conduct q).outcome.latencies.length < 2 ^ 63)
    (j : Nat → Journal) (base : Nat) :
    WellFounded (fun n' n : Crew C (CycleOutcome × Nat) => n.Step g.size ∅ conduct n') ∧
    ∀ n, (crew g t plan j base).Reaches g.size ∅ conduct n →
      ((∃ n', n.Step g.size ∅ conduct n') ∨ ∀ r < g.size, ∃ x, n.Done r x) ∧
      (∀ r < g.size, ∀ x, n.Done r x →
        (n.hand r).deeds = deedsOf (calls (j r)) ∧
        x.1.failures = (conduct r).failures ∧
        x.1.node = (conduct r).outcome ∧
        (x.1.aggregate.isSome ↔ r = 0) ∧
        x.2 = base + Agenda.operations g.size plan.mode) ∧
      ((∀ r < g.size, ∃ x, n.Done r x) → (lines n.carrier).Fresh g.size) := by
  refine ⟨Crew.wellFounded_step, fun n hn => ?_⟩
  have hf := feasible_whole hsize hword hrounds hlatencies
  obtain ⟨s, h, hs⟩ := aligned_of_reaches hC hf (Lines.calm_empty.mpr ht) hn
  have hpresent {r : Nat} (hr : r < g.size) : (charter g ∅ plan conduct j base).Present r :=
    ⟨hr, Finset.notMem_empty r⟩
  have hwhole : decide ((∅ : Finset Nat) = ∅) = true := decide_eq_true rfl
  refine ⟨?_, fun r hr x hx => ?_, h.fresh (concerted hf) hs rfl⟩
  · exact (h.progress hC (concerted hf) hs).imp_right fun hdone r hr => hdone r (hpresent hr)
  · obtain ⟨hdeeds, hk, hnode, haggregate, hfits⟩ := of_done hf h hs (hpresent hr) hx
    rw [hwhole] at hk haggregate hfits
    refine ⟨hdeeds, ?_, hnode, by simp [haggregate, aggregate], ?_⟩
    · rw [Agenda.failures_of_fits hfits, agenda, Agenda.own_ofCycle hr]
      rfl
    · rw [hk, agenda, Agenda.length_script_ofCycle]

/-- A writer that cannot set up and cannot shut down, and a reader that cannot write its logs. -/
def troubledPair (r : Nat) : Conduct :=
  if r = 0 then
    { phase := fun
        | .run => .ok ()
        | .setup | .shutdown => .error (.ofReason "refused")
      report := .ok ()
      role := .writer 0
      outcome := { role := .writer 0 } }
  else
    { phase _ := .ok ()
      report := .error (.ofReason "no space left")
      role := .reader 0
      outcome := { role := .reader 0, latencies := [7, 5] } }

theorem own_failures_only_of_troubledPair :
    (∀ q < 2, (troubledPair q).outcome.latencies.length < 2 ^ 63) ∧
    ∃ n, (crew Assembly.pair (Mesh.fresh 2) ⟨.throttled, 1, 2⟩ default 0).Reaches 2 ∅ troubledPair n ∧
      ∃ x y, n.Done 0 x ∧ n.Done 1 y ∧
        x.1.failures =
          [⟨.setup, "node setup failed: refused"⟩, ⟨.shutdown, "node shutdown failed: refused"⟩] ∧
        y.1.failures = [⟨.report, "node report failed: no space left"⟩] ∧
        x.2 = 18 ∧ y.2 = 18 := by
  have hlatencies : ∀ q < 2, (troubledPair q).outcome.latencies.length < 2 ^ 63
    | 0, _ | 1, _ => by decide
  have hrounds : 2 ≤ (⟨.throttled, 1, 2⟩ : CyclePlan).rounds := by decide
  have hcycle := (own_failures_only (g := Assembly.pair) (Mesh.faithful 2) (Mesh.fresh_lines 2)
    (by decide) (by decide) hrounds hlatencies default 0).2
  obtain ⟨n, hn, hdone⟩ := Crew.exists_end _ fun n hn => (hcycle n hn).1
  obtain ⟨x, hx⟩ := hdone 0 (by decide)
  obtain ⟨y, hy⟩ := hdone 1 (by decide)
  obtain ⟨-, hfailures, -, -, hnumber⟩ := (hcycle n hn).2.1 0 (by decide) x hx
  obtain ⟨-, hfailures', -, -, hnumber'⟩ := (hcycle n hn).2.1 1 (by decide) y hy
  refine ⟨hlatencies, n, hn, x, y, hx, hy, ?_, ?_, hnumber, hnumber'⟩
  · rw [hfailures]
    decide
  · rw [hfailures']
    decide

end Lagmeter.Cycle
