import Lagmeter.Proofs.Cycle.Crew
import Lagmeter.Proofs.Group.Mesh

/-!
# The order of a cycle

Within one rank the calls of the node come one after the other. Between ranks the barriers keep the
phases apart, and a throttled setup lets one rank set up at a time, in the order of the ranks. So a
reader sets up after the writer of its map.
-/

namespace Lagmeter

namespace RolePlan

variable {p : RolePlan} {q r map : Nat}

theorem lt_of_roleOf (hq : p.roleOf q = .writer map) (hr : p.roleOf r = .reader map) : q < r := by
  unfold roleOf at hq hr
  split at hq
  · cases hq
  split at hq <;> rename_i hfirst
  swap
  · cases hq
  split at hr
  · cases hr
  split at hr <;> rename_i hlater
  · cases hr
  have hwriter := Nat.div_add_mod q p.block
  have hreader := Nat.div_add_mod r p.block
  rw [hfirst, Role.writer.inj hq] at hwriter
  rw [Role.reader.inj hr] at hreader
  have := Nat.pos_of_ne_zero hlater
  omega

end RolePlan

namespace Cycle

variable {C : Carrier} {g : Roster} {plan : CyclePlan}

/-- No rank runs before all have set up, and none shuts down before all have run. -/
theorem phases_apart {lines : C.State → Lines} (hC : C.Faithful g.size lines) {t : C.State}
    (ht : (lines t).Fresh g.size) (hsize : 0 < g.size) (hword : g.size < 2 ^ 64)
    (hrounds : g.size ≤ plan.rounds) {conduct : Nat → Conduct}
    (hlatencies : ∀ q < g.size, (conduct q).outcome.latencies.length < 2 ^ 63)
    (j : Nat → Journal) (base : Nat) :
    WellFounded (fun n' n : Crew C (CycleOutcome × Nat) => n.Step g.size ∅ conduct n') ∧
    ∀ n, (crew g t plan j base).Reaches g.size ∅ conduct n →
      ((∃ n', n.Step g.size ∅ conduct n') ∨
        ∀ r < g.size, (n.hand r).deeds = deedsOf (calls (j r))) ∧
      (∀ r < g.size, (n.hand r).deeds <+: deedsOf (calls (j r))) ∧
      ∀ q < g.size, ∀ r < g.size,
        (plan.mode = .throttled → q < r → n.Precedes q (.phase .setup) r (.phase .setup)) ∧
        (plan.mode = .throttled → ∀ (roles : RolePlan) (map : Nat), roles.roleOf q = .writer map →
          roles.roleOf r = .reader map → n.Precedes q (.phase .setup) r (.phase .setup)) ∧
        n.Precedes q (.phase .setup) r (.phase .run) ∧
        n.Precedes q (.phase .run) r (.phase .shutdown) := by
  refine ⟨Crew.wellFounded_step, fun n hn => ?_⟩
  have hf := feasible_whole hsize hword hrounds hlatencies
  obtain ⟨s, h, hs⟩ := aligned_of_reaches hC hf (Lines.calm_empty.mpr ht) hn
  have hpresent {r : Nat} (hr : r < g.size) : (charter g ∅ plan conduct j base).Present r :=
    ⟨hr, Finset.notMem_empty r⟩
  refine ⟨?_, fun r hr => prefix_deeds h (hpresent hr), fun q hq r hr => ⟨?_, ?_, ?_, ?_⟩⟩
  · refine (h.progress hC (concerted hf) hs).imp_right fun hdone r hr => ?_
    obtain ⟨x, hx⟩ := hdone r (hpresent hr)
    exact (of_done hf h hs (hpresent hr) hx).1
  · exact fun hmode hqr => setup_in_turn h (Finset.notMem_empty 0) (hpresent hr) (hpresent hq) hmode hqr
  · exact fun hmode roles map hwriter hreader => setup_in_turn h (Finset.notMem_empty 0) (hpresent hr)
      (hpresent hq) hmode (RolePlan.lt_of_roleOf hwriter hreader)
  · exact setup_before_run h (Finset.notMem_empty 0) (hpresent hr) (hpresent hq)
  · exact run_before_shutdown h (Finset.notMem_empty 0) (hpresent hr) (hpresent hq)

def writerAndReader : RolePlan := ⟨1, 1⟩

theorem phases_apart_of_writerAndReader :
    writerAndReader.roleOf 0 = .writer 0 ∧ writerAndReader.roleOf 1 = .reader 0 ∧
    (∀ n, (crew Assembly.pair (Mesh.fresh 2) ⟨.throttled, 1, 2⟩ default 0).Reaches 2 ∅
        (fun r => .refusing (writerAndReader.roleOf r)) n →
      n.Precedes 0 (.phase .setup) 1 (.phase .setup) ∧ n.Precedes 1 (.phase .setup) 0 (.phase .run) ∧
      n.Precedes 0 (.phase .run) 1 (.phase .shutdown)) ∧
    ∃ n, (crew Assembly.pair (Mesh.fresh 2) ⟨.throttled, 1, 2⟩ default 0).Reaches 2 ∅
        (fun r => .refusing (writerAndReader.roleOf r)) n ∧
      ∀ r < 2, .ended (.phase .shutdown) ∈ (n.hand r).deeds := by
  have hrounds : 2 ≤ (⟨.throttled, 1, 2⟩ : CyclePlan).rounds := by decide
  have hlatencies : ∀ q < 2, (Conduct.refusing (writerAndReader.roleOf q)).outcome.latencies.length < 2 ^ 63
    | 0, _ | 1, _ => by decide
  have hcycle := (phases_apart (g := Assembly.pair) (Mesh.faithful 2) (Mesh.fresh_lines 2)
    (by decide) (by decide) hrounds hlatencies default 0).2
  refine ⟨by decide, by decide, fun n hn => ?_, ?_⟩
  · obtain ⟨-, -, horder⟩ := hcycle n hn
    obtain ⟨-, hroles, -, hrun⟩ := horder 0 (by decide) 1 (by decide)
    obtain ⟨-, -, hsetup, -⟩ := horder 1 (by decide) 0 (by decide)
    exact ⟨hroles rfl writerAndReader 0 (by decide) (by decide), hsetup, hrun⟩
  · obtain ⟨n, hn, hdone⟩ := Crew.exists_end _ fun n hn => (hcycle n hn).1
    refine ⟨n, hn, fun r hr => ?_⟩
    rw [hdone r hr, ended_mem_deedsOf]
    simp [calls]

end Cycle

end Lagmeter
