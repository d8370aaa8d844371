import Lagmeter.Proofs.Cycle.Crew
import Lagmeter.Proofs.Group.Mesh

/-!
# Cycles without all ranks

Where ranks of a group have left before a cycle, every collective step fails, for all ranks that are
still there. They go through the cycle nevertheless. As long as the root is there, the barriers keep
the phases of the others apart although they fail.
-/

namespace Lagmeter

/-! ## Ranks that have left -/

theorem Lines.Calm.shut {size : Nat} {missing : Finset Nat} {l : Lines} (h : l.Calm size missing)
    (d : Nat) : (l.shut d).Calm size (insert d missing) := by
  refine fun a ha => ⟨?_, (h a ha).2⟩
  by_cases had : a = d
  · simp [Lines.shut, had]
  · simp [Lines.shut, had, (h a ha).1]

namespace Mesh

/-- A mesh from which some ranks have left before anything was sent. -/
def without (size : Nat) : List Nat → (carrier size).State
  | [] => fresh size
  | d :: rest => ⟨(without size rest).1.close d, (without size rest).2.close d⟩

theorem calm_without {size : Nat} {ranks : List Nat} (hranks : ∀ d ∈ ranks, d < size) :
    (lines size (without size ranks)).Calm size ranks.toFinset := by
  induction ranks with
  | nil => exact Lines.calm_empty.mpr (fresh_lines size)
  | cons d rest ih =>
    obtain ⟨hd, hrest⟩ := List.forall_mem_cons.mp hranks
    rw [without, lines_close _ hd, List.toFinset_cons]
    exact (ih hrest).shut d

end Mesh

/-! ## The ranks that are there -/

namespace Cycle

variable {C : Carrier} {g : Roster} {plan : CyclePlan}

/-- Where some ranks have left, the others still have all calls of their nodes, and every collective step
fails. -/
theorem survivors_complete {lines : C.State → Lines} (hC : C.Faithful g.size lines)
    {missing : Finset Nat} (hmissing : missing.Nonempty) (hranks : ∀ d ∈ missing, d < g.size)
    {t : C.State} (ht : (lines t).Calm g.size missing) (hrounds : g.size ≤ plan.rounds)
    (conduct : Nat → Conduct) (j : Nat → Journal) (base : Nat) :
    WellFounded (fun n' n : Crew C (CycleOutcome × Nat) => n.Step g.size missing conduct n') ∧
    ∀ n, (crew g t plan j base).Reaches g.size missing conduct n →
      ((∃ n', n.Step g.size missing conduct n') ∨
        ∀ r < g.size, r ∉ missing → ∃ x, n.Done r x) ∧
      (∀ r < g.size, r ∉ missing →
        (n.hand r).deeds <+: deedsOf (calls (j r)) ∧
        ∀ x, n.Done r x →
          (n.hand r).deeds = deedsOf (calls (j r)) ∧
          List.Forall₂ Complaint.Fits ((agenda g plan conduct j r).complaints false (conduct r))
            x.1.failures ∧
          x.1.node = (conduct r).outcome ∧ x.1.aggregate = none) ∧
      (0 ∉ missing → ∀ q < g.size, q ∉ missing → ∀ r < g.size, r ∉ missing →
        n.Precedes q (.phase .setup) r (.phase .run) ∧
        n.Precedes q (.phase .run) r (.phase .shutdown)) := by
  refine ⟨Crew.wellFounded_step, fun n hn => ?_⟩
  have hne : missing ≠ ∅ := hmissing.ne_empty
  have hf : Feasible g missing plan conduct :=
    ⟨hrounds, hranks, fun hwhole => absurd hwhole hne, fun hwhole => absurd hwhole hne⟩
  obtain ⟨s, h, hs⟩ := aligned_of_reaches hC hf ht hn
  have hpartial : decide (missing = ∅) = false := decide_eq_false hne
  refine ⟨?_, fun r hr hhere => ⟨prefix_deeds h ⟨hr, hhere⟩, fun x hx => ?_⟩, ?_⟩
  · exact (h.progress hC (concerted hf) hs).imp_right fun hdone r hr hhere => hdone r ⟨hr, hhere⟩
  · obtain ⟨hdeeds, -, hnode, haggregate, hfits⟩ := of_done hf h hs ⟨hr, hhere⟩ hx
    rw [hpartial] at haggregate hfits
    exact ⟨hdeeds, hfits, hnode, haggregate⟩
  · exact fun hroot q hq hqhere r hr hrhere =>
      ⟨setup_before_run h hroot ⟨hr, hrhere⟩ ⟨hq, hqhere⟩,
        run_before_shutdown h hroot ⟨hr, hrhere⟩ ⟨hq, hqhere⟩⟩

theorem survivors_complete_of_three :
    ({1} : Finset Nat).Nonempty ∧
    ∃ n, (crew ⟨3, fun _ => "a"⟩ (Mesh.without 3 [1]) ⟨.throttled, 1, 3⟩ default 0).Reaches 3 {1}
        (fun _ => .refusing .idle) n ∧
      n.Precedes 2 (.phase .setup) 0 (.phase .run) ∧
      ∃ x, n.Done 2 x ∧ x.1.aggregate = none ∧ List.Forall₂ Complaint.Fits
        [.group .start "start barrier",
          .group .setup "throttle barrier", .group .setup "throttle broadcast",
          .group .setup "throttle barrier", .group .setup "throttle broadcast",
          .node .setup "node setup" (.ofReason "refused"),
          .group .setup "throttle barrier", .group .setup "throttle broadcast",
          .group .setup "setup barrier",
          .node .measurement "node run" (.ofReason "refused"),
          .group .measurement "measurement barrier",
          .node .shutdown "node shutdown" (.ofReason "refused"),
          .node .report "node report" (.ofReason "refused"),
          .group .aggregation "result aggregation", .group .finish "final barrier"]
        x.1.failures := by
  have hranks : ∀ d ∈ ({1} : Finset Nat), d < 3 := by decide
  have hcalm : (Mesh.lines 3 (Mesh.without 3 [1])).Calm 3 {1} := Mesh.calm_without (by decide)
  have hrounds : 3 ≤ (⟨.throttled, 1, 3⟩ : CyclePlan).rounds := by decide
  have hcycle := (survivors_complete (g := ⟨3, fun _ => "a"⟩) (Mesh.faithful 3) (by decide) hranks hcalm
    hrounds (fun _ => .refusing .idle) default 0).2
  obtain ⟨n, hn, hdone⟩ := Crew.exists_end _ fun n hn => (hcycle n hn).1
  obtain ⟨x, hx⟩ := hdone 2 (by decide) (by decide)
  obtain ⟨-, hthere, horder⟩ := hcycle n hn
  obtain ⟨-, hfits, -, haggregate⟩ := (hthere 2 (by decide) (by decide)).2 x hx
  exact ⟨by decide, n, hn, (horder (by decide) 2 (by decide) (by decide) 0 (by decide) (by decide)).1,
    x, hx, haggregate, hfits⟩

end Cycle

end Lagmeter
