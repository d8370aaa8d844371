import Lagmeter.Proofs.Cycle.Agenda
import Lagmeter.Proofs.Cycle.Gathering

/-!
# The agenda of a cycle

What a rank does in a cycle depends neither on how its node fares nor on whether its collective
steps succeed. All ranks of a group have the same collective steps on their agendas, and each has
the calls of its own node between them.
-/

namespace Lagmeter

open Collective

/-! ## Agendas -/

namespace Agenda

def barrier (phase : Phase) (step : String) : Topic := .meet phase step [fun _ => .barrier]

def nodeSetup : Topic := .work .setup "node setup" (.phase .setup)

/-- The collective steps of turn `t` of a throttled setup. -/
def throttle (t : Nat) : Agenda :=
  [barrier .setup "throttle barrier",
    .meet .setup "throttle broadcast" [fun _ => .broadcastValue (Collection.word (t + 1)) 0]]

/-- One turn. Rank `r` sets up in its own turn only. -/
def turn (r t : Nat) : Agenda :=
  (if t = r then [nodeSetup] else []) ++ throttle t

def turns (r : Nat) : (count t : Nat) → Agenda
  | 0, _ => []
  | count + 1, t => turn r t ++ turns r count (t + 1)

def setup (size r : Nat) : SetupMode → Agenda
  | .parallel => [nodeSetup]
  | .throttled => turns r size 0

def opening : Agenda := [.look .role, barrier .start "start barrier"]

/-- From the end of the setup to the end of the measurement. -/
def measurement : Agenda :=
  [barrier .setup "setup barrier", .work .measurement "node run" (.phase .run),
    barrier .measurement "measurement barrier"]

/-- What comes after the measurement, where rank `q` has the outcome `o q`. -/
def closing (size slots : Nat) (j : Journal) (o : Nat → Outcome) : Agenda :=
  [.work .shutdown "node shutdown" (.phase .shutdown), .work .report "node report" (.report j),
    .look .outcome, .meet .aggregation "result aggregation" (Collection.script size slots o),
    barrier .finish "final barrier"]

/-- What rank `r` does in a cycle. -/
def ofCycle (size : Nat) (plan : CyclePlan) (j : Journal) (o : Nat → Outcome) (r : Nat) : Agenda :=
  opening ++ setup size r plan.mode ++ measurement ++ closing size plan.slots j o

/-! ### Collective steps -/

/-- How many collective operations a cycle has. -/
def operations (size : Nat) : SetupMode → Nat
  | .parallel => 14
  | .throttled => 2 * size + 14

section

variable {whole : Bool} {size : Nat} {plan : CyclePlan} {o : Nat → Outcome}

theorem script_turn (r t : Nat) : (turn r t).script whole = (throttle t).script whole := by
  unfold turn
  split <;> rfl

theorem length_script_turns (r count t : Nat) :
    ((turns r count t).script whole).length = 2 * count := by
  induction count generalizing t with
  | zero => rfl
  | succ count ih =>
    rw [turns, script_append, List.length_append, ih, script_turn]
    cases whole <;> simp [script, throttle, barrier, Topic.script] <;> omega

theorem script_turns (r q count t : Nat) :
    (turns r count t).script whole = (turns q count t).script whole := by
  induction count generalizing t with
  | zero => rfl
  | succ count ih => rw [turns, turns, script_append, script_append, script_turn, script_turn, ih]

theorem script_setup (size r q : Nat) (mode : SetupMode) :
    (setup size r mode).script whole = (setup size q mode).script whole := by
  cases mode with
  | parallel => rfl
  | throttled => exact script_turns r q size 0

@[simp] theorem script_barrier (phase : Phase) (step : String) (a : Agenda) :
    script whole (barrier phase step :: a) = (fun _ => .barrier) :: a.script whole := by
  cases whole <;> rfl

@[simp] theorem script_work (phase : Phase) (step : String) (call : SeatCall) (a : Agenda) :
    script whole (.work phase step call :: a) = a.script whole := rfl

@[simp] theorem script_nil : script whole [] = [] := rfl

theorem script_ofCycle (j j' : Journal) (r q : Nat) :
    (ofCycle size plan j o r).script whole = (ofCycle size plan j' o q).script whole := by
  simp only [ofCycle, script_append]
  rw [script_setup size r q]
  rfl

theorem length_script_ofCycle (j : Journal) (r : Nat) :
    ((ofCycle size plan j o r).script true).length = operations size plan.mode := by
  simp only [ofCycle, script_append, List.length_append]
  cases plan.mode with
  | parallel => rfl
  | throttled =>
    rw [setup, length_script_turns]
    simp +arith [script, opening, measurement, closing, barrier, Topic.script, Collection.script,
      operations]

theorem granted_turns {g : Roster} (hsize : 0 < g.size) (r count t : Nat) :
    ∀ all ∈ (turns r count t).script true, Request.Granted g all := by
  induction count generalizing t with
  | zero => nofun
  | succ count ih =>
    intro all hall
    rw [turns, script_append, script_turn, List.mem_append] at hall
    rcases hall with hall | hall
    · rcases List.mem_pair.mp hall with rfl | rfl
      · exact Request.granted_barrier
      · exact Request.granted_broadcastValue _ hsize
    · exact ih (t + 1) all hall

theorem granted_ofCycle {g : Roster} (hsize : 0 < g.size) (j : Journal) (r : Nat) :
    ∀ all ∈ (ofCycle g.size plan j o r).script true, Request.Granted g all := by
  have hbarrier : ∀ all ∈ [fun _ => Request.barrier], Request.Granted g all :=
    List.forall_mem_singleton.mpr Request.granted_barrier
  simp only [ofCycle, script_append, List.forall_mem_append]
  refine ⟨⟨⟨hbarrier, ?_⟩, List.forall_mem_cons.mpr ⟨Request.granted_barrier, hbarrier⟩⟩, ?_⟩
  · cases plan.mode with
    | parallel => nofun
    | throttled => exact granted_turns hsize r g.size 0
  · show ∀ all ∈ Collection.script g.size plan.slots o ++ [fun _ => .barrier], Request.Granted g all
    exact List.forall_mem_append.mpr ⟨Collection.granted_script hsize plan.slots o, hbarrier⟩

end

/-! ### Calls of the node -/

@[simp] theorem calls_nil : calls [] = [] := rfl

@[simp] theorem calls_barrier (phase : Phase) (step : String) (a : Agenda) :
    calls (barrier phase step :: a) = a.calls := rfl

@[simp] theorem calls_work (phase : Phase) (step : String) (call : SeatCall) (a : Agenda) :
    calls (.work phase step call :: a) = call :: a.calls := rfl

@[simp] theorem calls_opening : calls opening = [.role] := rfl

theorem own_turns (r count t : Nat) :
    (turns r count t).own = if t ≤ r ∧ r < t + count then [nodeSetup] else [] := by
  induction count generalizing t with
  | zero => exact (if_neg (by omega)).symm
  | succ count ih =>
    rw [turns, turn, own_append, own_append, ih]
    by_cases ht : t = r
    · rw [if_pos ht, if_neg (by omega), if_pos (by omega)]
      rfl
    · rw [if_neg ht]
      exact if_congr (by omega) rfl rfl

theorem calls_turns_self (r : Nat) : (turns r r 0).calls = [] := by
  rw [calls, own_turns, if_neg (by omega)]
  rfl

theorem own_setup {size r : Nat} (hr : r < size) (mode : SetupMode) :
    (setup size r mode).own = [nodeSetup] := by
  cases mode with
  | parallel => rfl
  | throttled =>
    rw [setup, own_turns]
    exact if_pos (by omega)

theorem calls_setup {size r : Nat} (hr : r < size) (mode : SetupMode) :
    (setup size r mode).calls = [.phase .setup] := by
  rw [calls, own_setup hr]
  rfl

theorem turns_add (r a b t : Nat) : turns r (a + b) t = turns r a t ++ turns r b (t + a) := by
  induction a generalizing t with
  | zero => rw [Nat.zero_add]; rfl
  | succ a ih =>
    rw [show a + 1 + b = a + b + 1 by omega, turns, turns, ih, List.append_assoc,
      show t + 1 + a = t + (a + 1) by omega]

theorem own_ofCycle {size r : Nat} (hr : r < size) (plan : CyclePlan) (j : Journal)
    (o : Nat → Outcome) : (ofCycle size plan j o r).own =
      [.look .role, nodeSetup, .work .measurement "node run" (.phase .run),
        .work .shutdown "node shutdown" (.phase .shutdown), .work .report "node report" (.report j),
        .look .outcome] := by
  simp only [ofCycle, own_append, own_setup hr]
  rfl

end Agenda

/-! ## Every rank follows its agenda -/

namespace Cycle

section

variable {m : Member} {conduct : Conduct} {whole : Bool} {s : NodeState}

theorem takes_together_barrier (phase : Phase) (step : String) :
    Takes m conduct whole [Agenda.barrier phase step] s s (fun _ => True)
      (together phase step (Collective.barrier m)) := by
  cases whole with
  | false =>
    exact (takes_together_failed ((renders_barrier m).fails rfl) phase step).mono fun _ _ => trivial
  | true => exact (takes_together (gives_barrier m) phase step).mono fun _ _ => trivial

theorem nextTurn_word {t : Nat} (ht : t + 1 < 2 ^ 64) :
    nextTurn t (some (Collection.word (t + 1))) = t + 1 := by
  rw [nextTurn]
  split
  · rfl
  · have := Collection.toInt_word_eq_or_neg ht
    omega

theorem takes_throttle (hm : 0 < m.size) {t : Nat} (ht : whole = true → t + 1 < 2 ^ 64) :
    Takes m conduct whole
      [.meet .setup "throttle broadcast" [fun _ => .broadcastValue (Collection.word (t + 1)) 0]]
      s s (nextTurn t · = t + 1)
      (together .setup "throttle broadcast" (broadcastValue m (Collection.word (t + 1)) 0)) := by
  cases whole with
  | false =>
    refine (takes_together_failed ((renders_broadcastValue m _ 0).fails (if_pos hm)) _ _).mono ?_
    rintro _ rfl
    rfl
  | true =>
    refine (takes_together (gives_broadcastValue hm _ (Collection.word (t + 1))) _ _).mono ?_
    rintro _ ⟨_, rfl, rfl⟩
    exact nextTurn_word (ht rfl)

theorem takes_throttledSetup (hm : 0 < m.size) (hsize : whole = true → m.size < 2 ^ 64)
    {rounds t : Nat} (ht : t ≤ m.size) (hrounds : m.size ≤ t + rounds) :
    Takes m conduct whole (Agenda.turns m.rank (m.size - t) t) s s (fun _ => True)
      (throttledSetup m rounds t) := by
  -- By induction on the rounds that are left, for all turns: there are at least as many of them.
  induction rounds generalizing t with
  | zero =>
    rw [show m.size - t = 0 by omega]
    exact leads_pure trivial
  | succ rounds ih =>
    unfold throttledSetup
    split <;> rename_i hover
    · rw [show m.size - t = 0 by omega]
      exact leads_pure trivial
    have hcount : m.size - t = m.size - (t + 1) + 1 := by omega
    rw [hcount, Agenda.turns, Agenda.turn, List.append_assoc]
    extract_lets rest
    -- What follows is the same for the rank whose turn it is and for all others.
    have hrest : Takes m conduct whole
        (Agenda.throttle t ++ Agenda.turns m.rank (m.size - (t + 1)) (t + 1)) s s
        (fun _ => True) (rest ()) := by
      refine (takes_together_barrier .setup "throttle barrier").cons fun _ _ => ?_
      refine (takes_throttle hm fun hwhole => ?_).cons fun said hsaid => ?_
      · have := hsize hwhole
        omega
      · rw [hsaid]
        have hnext := ih (t := t + 1) (by omega) (by omega)
        split
        · exact (takes_log _ _).silent fun _ _ => hnext
        · exact hnext
    by_cases hturn : t = m.rank
    · rw [if_pos hturn, if_pos hturn]
      exact (takes_log _ _).silent fun _ _ => (takes_phase _ _ _).cons fun _ _ => hrest
    · rw [if_neg hturn, if_neg hturn]
      exact hrest

theorem takes_setup {plan : CyclePlan} (hm : 0 < m.size) (hsize : whole = true → m.size < 2 ^ 64)
    (hrounds : m.size ≤ plan.rounds) :
    Takes m conduct whole (Agenda.setup m.size m.rank plan.mode) s s (fun _ => True)
      (setup m plan) := by
  unfold setup
  cases plan.mode with
  | parallel => exact (takes_status m _).silent fun _ _ => takes_phase _ _ _
  | throttled => exact takes_throttledSetup hm hsize (Nat.zero_le _) (by omega)

theorem takes_barrier {phase : Phase} {step : String} :
    Takes m conduct whole [Agenda.barrier phase step] s s (fun _ => True) (barrier m phase step) :=
  (takes_together_barrier phase step).bind fun _ _ => leads_pure trivial

theorem takes_measure {plan : CyclePlan} (hm : 0 < m.size) (hsize : whole = true → m.size < 2 ^ 64)
    (hrounds : m.size ≤ plan.rounds) :
    Takes m conduct whole
      (Agenda.opening ++ (Agenda.setup m.size m.rank plan.mode ++ Agenda.measurement))
      .created .measured (fun _ => True) (measure m plan) := by
  unfold measure
  refine takes_role.cons fun _ _ => (takes_status m _).silent fun _ _ => takes_barrier.cons fun _ _ => ?_
  refine (takes_enter rfl .setup).silent fun _ _ => (takes_setup hm hsize hrounds).bind fun _ _ => ?_
  refine takes_barrier.cons fun _ _ => (takes_status m _).silent fun _ _ => ?_
  refine (takes_enter rfl .measurement).silent fun _ _ => (takes_phase _ _ _).cons fun _ _ => ?_
  exact takes_barrier

end

section

variable {g : Roster} {conduct : Nat → Conduct} {whole : Bool} {r : Nat}

/-- The outcomes that the nodes have in the end. -/
def outcomes (conduct : Nat → Conduct) (q : Nat) : Outcome := (conduct q).outcome

def aggregate (whole : Bool) (size slots : Nat) (o : Nat → Outcome) (r : Nat) : Option Aggregate :=
  if whole = true ∧ r = 0 then some ((Collection.gathered size slots o).report size slots) else none

theorem takes_collect (hr : r < g.size) (slots : Nat) {o : Nat → Outcome}
    (hcommon : whole = true → 0 ≤ (Collection.commonWord g.size o).toInt) {s : NodeState} :
    Takes (g.member r) (conduct r) whole
      [.meet .aggregation "result aggregation" (Collection.script g.size slots o)] s s
      (Option.join · = aggregate whole g.size slots o r)
      (together .aggregation "result aggregation" (Collection.collect (g.member r) slots (o r))) := by
  have hm : 0 < (g.member r).size := Nat.zero_lt_of_lt hr
  cases whole with
  | false =>
    refine (takes_together_failed (Collection.fails_collect hm slots (o r)) _ _).mono ?_
    rintro _ rfl
    rfl
  | true =>
    refine (takes_together (Collection.gives_collect slots hr (hcommon rfl)) _ _).mono ?_
    rintro _ ⟨_, rfl, rfl⟩
    simp [aggregate]

theorem takes_conclude (hr : r < g.size) {plan : CyclePlan} (j : Journal)
    (hcommon : whole = true → 0 ≤ (Collection.commonWord g.size (outcomes conduct)).toInt) :
    Takes (g.member r) (conduct r) whole (Agenda.closing g.size plan.slots j (outcomes conduct))
      .measured .done
      (· = (aggregate whole g.size plan.slots (outcomes conduct) r, (conduct r).outcome))
      (conclude (g.member r) plan j) := by
  unfold conclude
  refine (takes_status _ _).silent fun _ _ => (takes_enter rfl .shutdown).silent fun _ _ => ?_
  refine (takes_phase _ _ _).cons fun _ _ => (takes_enter rfl .report).silent fun _ _ => ?_
  refine (takes_report _ _ j).cons fun _ _ => (takes_status _ _).silent fun _ _ => ?_
  refine takes_outcome.cons ?_
  rintro _ rfl
  refine (takes_collect hr plan.slots hcommon).cons fun x hx => ?_
  refine takes_barrier.bind fun _ _ => (takes_status _ _).silent fun _ _ => ?_
  exact leads_pure (by rw [hx])

/-- A rank goes along its agenda, whatever its node and its collective steps give. -/
theorem goes_start (hr : r < g.size) {plan : CyclePlan} (j : Journal)
    (hsize : whole = true → g.size < 2 ^ 64) (hrounds : g.size ≤ plan.rounds)
    (hcommon : whole = true → 0 ≤ (Collection.commonWord g.size (outcomes conduct)).toInt)
    (base : Nat) :
    Goes (g.member r) (conduct r)
      (fun k x => x.2 = k ∧ x.1.node = (conduct r).outcome ∧
        x.1.aggregate = aggregate whole g.size plan.slots (outcomes conduct) r ∧
        List.Forall₂ Complaint.Fits ((Agenda.ofCycle g.size plan j (outcomes conduct) r).complaints
          whole (conduct r)) x.1.failures)
      ((Agenda.ofCycle g.size plan j (outcomes conduct) r).course whole g.size r) base
      (start (g.member r) plan j base) := by
  have hm : 0 < (g.member r).size := Nat.zero_lt_of_lt hr
  have hstart : start (g.member r) plan j base =
      (StateT.run (measure (g.member r) plan >>= fun _ => conclude (g.member r) plan j)
        { sequence := base }).bind fun x =>
          .done ({ failures := x.2.failures, aggregate := x.1.1, node := x.1.2 }, x.2.sequence) := by
    show Dialogue.bind (Dialogue.bind _ _) _ = Dialogue.bind (Dialogue.bind _ _) _
    simp only [Dialogue.bind_assoc]
    refine congrArg _ (funext fun x => ?_)
    show Dialogue.bind (Dialogue.bind _ _) _ = _
    rw [Dialogue.bind_assoc]
    rfl
  have hparts : Takes (g.member r) (conduct r) whole
      (Agenda.ofCycle g.size plan j (outcomes conduct) r) .created .done
      (· = (aggregate whole g.size plan.slots (outcomes conduct) r, (conduct r).outcome))
      (measure (g.member r) plan >>= fun _ => conclude (g.member r) plan j) :=
    (takes_measure hm hsize hrounds).bind fun _ _ => takes_conclude hr j hcommon
  rw [hstart, ← List.append_nil (Agenda.course _ _ _ _)]
  refine (hparts { sequence := base } rfl).bind ?_
  rintro _ ⟨_, s⟩ ⟨rfl, rfl, -, new, hnew, hfits⟩
  refine .done _ _ ⟨rfl, rfl, rfl, ?_⟩
  rw [hnew]
  exact hfits

end

end Cycle

end Lagmeter
