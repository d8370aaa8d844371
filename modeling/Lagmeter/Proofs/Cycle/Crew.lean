import Lagmeter.Proofs.Crew.Progress
import Lagmeter.Proofs.Cycle.Report
import Lagmeter.Proofs.Cycle.Whole

/-!
# Cycles of a crew

All ranks of a group that are there go through a cycle together. The charter of the crew says on
which agendas they are and what each of them comes to.
-/

namespace Lagmeter

def Cycle.calls (j : Journal) : List SeatCall :=
  [.role, .phase .setup, .phase .run, .phase .shutdown, .report j, .outcome]

/-- The failures of a node in a cycle, one for each call that failed. -/
def Conduct.failures (c : Conduct) : List PhaseFailure :=
  [(Phase.setup, "node setup", c.phase .setup), (.measurement, "node run", c.phase .run),
    (.shutdown, "node shutdown", c.phase .shutdown), (.report, "node report", c.report)].filterMap
      fun (phase, step, x) => (faultOf? x).map fun e => ⟨phase, s!"{step} failed: {e.message}"⟩

def Conduct.refusing (role : Role) : Conduct where
  phase _ := .error (.ofReason "refused")
  report := .error (.ofReason "refused")
  role := role
  outcome := { role }

namespace Cycle

variable {C : Carrier}

/-- A crew at the start of a cycle, after operation number `base`. -/
def crew (g : Roster) (t : C.State) (plan : CyclePlan) (j : Nat → Journal) (base : Nat) :
    Crew C (CycleOutcome × Nat) :=
  .start t fun r => start (g.member r) plan (j r) base

section

variable (g : Roster) (missing : Finset Nat) (plan : CyclePlan) (conduct : Nat → Conduct)
  (j : Nat → Journal) (base : Nat)

def agenda (r : Nat) : Agenda := .ofCycle g.size plan (j r) (outcomes conduct) r

def charter : Charter (CycleOutcome × Nat) where
  roster := g
  missing
  base
  conduct
  course r := (agenda g plan conduct j r).course (missing = ∅) g.size r
  post r k x := x.2 = k ∧ x.1.node = (conduct r).outcome ∧
    x.1.aggregate = aggregate (missing = ∅) g.size plan.slots (outcomes conduct) r ∧
    List.Forall₂ Complaint.Fits ((agenda g plan conduct j r).complaints (missing = ∅) (conduct r))
      x.1.failures

/-- There are rounds enough for all to set up, and in a whole group no number goes beyond a word. -/
structure Feasible : Prop where
  rounds : g.size ≤ plan.rounds
  ranks : ∀ d ∈ missing, d < g.size
  size : missing = ∅ → 0 < g.size ∧ g.size < 2 ^ 64
  latencies : missing = ∅ → ∀ q < g.size, (conduct q).outcome.latencies.length < 2 ^ 63

end

variable {g : Roster} {missing : Finset Nat} {plan : CyclePlan} {conduct : Nat → Conduct}
  {j : Nat → Journal} {base : Nat} {lines : C.State → Lines} {t : C.State}
  {n : Crew C (CycleOutcome × Nat)}
  {s : Assembly (Lines.carrier (charter g missing plan conduct j base).roster.size) Silent Unit}
  {r p q : Nat}

theorem feasible_whole (hsize : 0 < g.size) (hword : g.size < 2 ^ 64) (hrounds : g.size ≤ plan.rounds)
    (hlatencies : ∀ q < g.size, (conduct q).outcome.latencies.length < 2 ^ 63) :
    Feasible g ∅ plan conduct :=
  ⟨hrounds, nofun, fun _ => ⟨hsize, hword⟩, fun _ => hlatencies⟩

theorem concerted (hf : Feasible g missing plan conduct) :
    (charter g missing plan conduct j base).Concerted
      ((agenda g plan conduct j 0).script (missing = ∅)) where
  missing := hf.ranks
  asks r _ := by
    rw [agenda, Agenda.script_ofCycle (j 0) (j r) 0 r]
    exact Agenda.asks_course _
  granted hwhole := by
    rw [decide_eq_true (show missing = ∅ from hwhole)]
    exact Agenda.granted_ofCycle (hf.size hwhole).1 _ _

theorem Feasible.common (hf : Feasible g missing plan conduct) (hwhole : missing = ∅) :
    0 ≤ (Collection.commonWord g.size (outcomes conduct)).toInt := by
  have hroot := Collection.le_commonWord (o := outcomes conduct) (hf.size hwhole).1 (hf.size hwhole).1
  have hword := Collection.toInt_word (hf.latencies hwhole 0 (hf.size hwhole).1)
  rw [outcomes, hword] at hroot
  omega

theorem goes_charter (hf : Feasible g missing plan conduct)
    (hr : (charter g missing plan conduct j base).Present r) :
    (charter g missing plan conduct j base).Goes r []
      ((charter g missing plan conduct j base).course r) (start (g.member r) plan (j r) base) :=
  goes_start hr.1 (j r) (fun hwhole => (hf.size (of_decide_eq_true hwhole)).2) hf.rounds
    (fun hwhole => hf.common (of_decide_eq_true hwhole)) base

theorem aligned_of_reaches (hC : C.Faithful g.size lines) (hf : Feasible g missing plan conduct)
    (ht : (lines t).Calm g.size missing)
    (hn : (crew g t plan j base).Reaches g.size missing conduct n) :
    ∃ s, (charter g missing plan conduct j base).Aligned lines n s ∧
      (charter g missing plan conduct j base).Settled s :=
  Charter.aligned_of_reaches (v := charter g missing plan conduct j base) hC (concerted hf) ht
    (fun _ hr => goes_charter hf hr) hn

theorem calls_course (hr : r < g.size) :
    ((charter g missing plan conduct j base).course r).calls = calls (j r) := by
  show ((agenda g plan conduct j r).course _ g.size r).calls = _
  rw [Agenda.calls_course, Agenda.calls, agenda, Agenda.own_ofCycle hr]
  rfl

theorem prefix_deeds (h : (charter g missing plan conduct j base).Aligned lines n s)
    (hr : (charter g missing plan conduct j base).Present r) :
    (n.hand r).deeds <+: deedsOf (calls (j r)) :=
  calls_course hr.1 ▸ h.prefix_deeds hr

theorem of_done (hf : Feasible g missing plan conduct)
    (h : (charter g missing plan conduct j base).Aligned lines n s)
    (hs : (charter g missing plan conduct j base).Settled s)
    (hr : (charter g missing plan conduct j base).Present r) {x : CycleOutcome × Nat}
    (hx : n.Done r x) : (n.hand r).deeds = deedsOf (calls (j r)) ∧
      x.2 = base + ((agenda g plan conduct j 0).script (missing = ∅)).length ∧
      x.1.node = (conduct r).outcome ∧
      x.1.aggregate = aggregate (missing = ∅) g.size plan.slots (outcomes conduct) r ∧
      List.Forall₂ Complaint.Fits
        ((agenda g plan conduct j r).complaints (missing = ∅) (conduct r)) x.1.failures := by
  obtain ⟨hdeeds, ⟨hk, hpost⟩, -⟩ := h.done hs hr hx
  rw [(concerted hf).asks r hr, List.length_map] at hk
  exact ⟨calls_course hr.1 ▸ hdeeds, hk, hpost⟩

/-! ## The order of calls -/

theorem precedes_of_agendas (h : (charter g missing plan conduct j base).Aligned lines n s)
    (hroot : 0 ∉ missing) (hp : (charter g missing plan conduct j base).Present p)
    (hq : (charter g missing plan conduct j base).Present q) {early before : Agenda}
    (hearly : early <+: agenda g plan conduct j p) (hbefore : before <+: agenda g plan conduct j q)
    (hcount : (before.script (missing = ∅)).length < (early.script (missing = ∅)).length)
    {call call' : SeatCall} (hnew : call ∉ early.calls) (hold : call' ∈ before.calls) :
    n.Precedes q call' p call := by
  intro hbegan
  have hsplit {r : Nat} {a b : Agenda} (hab : a ++ b = agenda g plan conduct j r) :
      (charter g missing plan conduct j base).course r =
        a.course (missing = ∅) g.size r ++ b.course (missing = ∅) g.size r := by
    rw [← Agenda.course_append, hab]
    rfl
  -- The requests of a course are as many as the agenda has, and its calls are those of the agenda.
  obtain ⟨late, hlate⟩ := hearly
  obtain ⟨after, hafter⟩ := hbefore
  refine h.ended_of_began ⟨Nat.zero_lt_of_lt hp.1, hroot⟩ hp hq (hsplit hlate) (hsplit hafter)
    ?_ ?_ hbegan call' ?_
  · simpa only [Agenda.asks_course, List.length_map] using hcount
  · rwa [Agenda.calls_course]
  · rwa [Agenda.calls_course]

section

variable (h : (charter g missing plan conduct j base).Aligned lines n s) (hroot : 0 ∉ missing)
  (hp : (charter g missing plan conduct j base).Present p)
  (hq : (charter g missing plan conduct j base).Present q)

include h hroot hp hq

/-- The setup barrier comes between all setups and all runs. -/
theorem setup_before_run : n.Precedes q (.phase .setup) p (.phase .run) := by
  have hp' : p < g.size := hp.1
  have hq' : q < g.size := hq.1
  have hearly : Agenda.opening ++ Agenda.setup g.size p plan.mode ++
      [Agenda.barrier .setup "setup barrier"] <+: agenda g plan conduct j p := by
    simp [agenda, Agenda.ofCycle, Agenda.measurement]
  have hbefore : Agenda.opening ++ Agenda.setup g.size q plan.mode <+: agenda g plan conduct j q := by
    simp [agenda, Agenda.ofCycle]
  refine precedes_of_agendas h hroot hp hq hearly hbefore ?_ ?_ ?_
  · simp [Agenda.script_setup g.size p q]
  · simp [Agenda.calls_setup hp']
  · simp [Agenda.calls_setup hq']

/-- The measurement barrier comes between all runs and all shutdowns. -/
theorem run_before_shutdown : n.Precedes q (.phase .run) p (.phase .shutdown) := by
  have hp' : p < g.size := hp.1
  have hearly : Agenda.opening ++ Agenda.setup g.size p plan.mode ++ Agenda.measurement <+:
      agenda g plan conduct j p := by simp [agenda, Agenda.ofCycle]
  have hbefore : Agenda.opening ++ Agenda.setup g.size q plan.mode ++
      [Agenda.barrier .setup "setup barrier", .work .measurement "node run" (.phase .run)] <+:
      agenda g plan conduct j q := by simp [agenda, Agenda.ofCycle, Agenda.measurement]
  refine precedes_of_agendas h hroot hp hq hearly hbefore ?_ ?_ ?_
  · simp [Agenda.script_setup g.size p q, Agenda.measurement]
  · simp [Agenda.calls_setup hp', Agenda.measurement]
  · simp

theorem setup_in_turn (hmode : plan.mode = .throttled) (hqp : q < p) :
    n.Precedes q (.phase .setup) p (.phase .setup) := by
  have hp' : p < g.size := hp.1
  have hearly : Agenda.opening ++ Agenda.turns p p 0 <+: agenda g plan conduct j p := by
    have hturns := Agenda.turns_add p p (g.size - p) 0
    rw [Nat.add_sub_cancel' hp'.le] at hturns
    simp [agenda, Agenda.ofCycle, hmode, Agenda.setup, hturns]
  have hbefore : Agenda.opening ++ (Agenda.turns q q 0 ++ [Agenda.nodeSetup]) <+:
      agenda g plan conduct j q := by
    have hturns := Agenda.turns_add q q (g.size - (q + 1) + 1) 0
    rw [show q + (g.size - (q + 1) + 1) = g.size by omega] at hturns
    simp [agenda, Agenda.ofCycle, hmode, Agenda.setup, hturns, Agenda.turns, Agenda.turn]
  refine precedes_of_agendas h hroot hp hq hearly hbefore ?_ ?_ ?_
  · simpa [Agenda.length_script_turns, Agenda.nodeSetup] using hqp
  · simp [Agenda.calls_turns_self]
  · simp [Agenda.nodeSetup]

end

end Cycle

end Lagmeter
