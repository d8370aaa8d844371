import Lagmeter.Cycle.Run
import Lagmeter.Proofs.Crew.Parts

/-!
# Agendas

The agenda of a rank says what it does in a cycle, one thing after the other: calls of its node and
collective steps. From it follow the course of the rank and what the rank complains of in the end.
Both depend on whether the group is whole. In a group with somebody missing every collective step
fails with its first request, and nothing else is different.
-/

namespace Lagmeter

/-! ## Complaints -/

/-- What a failure that a rank keeps is about. -/
inductive Complaint where
  | node (phase : Phase) (step : String) (fault : Fault)
  | group (phase : Phase) (step : String)

def Complaint.Fits : Complaint → PhaseFailure → Prop
  | .node phase step fault, f => f = ⟨phase, s!"{step} failed: {fault.message}"⟩
  | .group phase step, f => ∃ e : GroupError, f = ⟨phase, s!"{step} failed: {e.message}"⟩

def faultOf? : Except Fault Unit → Option Fault
  | .ok _ => none
  | .error e => some e

/-- The fault that a call of the node ends with, if it fails. -/
def Conduct.fault? (c : Conduct) : SeatCall → Option Fault
  | .phase p => faultOf? (c.phase p)
  | .report _ => faultOf? c.report
  | _ => none

/-! ## Topics -/

/-- One thing that a rank does in a cycle. -/
inductive Topic where
  | look (call : SeatCall)
  | work (phase : Phase) (step : String) (call : SeatCall)
  /-- A collective step, in which rank `q` makes the requests `all q` one after the other. -/
  | meet (phase : Phase) (step : String) (script : List (Nat → Request))

namespace Topic

/-- The requests that are made, also if the group is not whole. -/
def script (whole : Bool) : Topic → List (Nat → Request)
  | .look _ | .work _ _ _ => []
  | .meet _ _ script => if whole then script else script.take 1

def course (whole : Bool) (size r : Nat) : Topic → Course
  | .look call | .work _ _ call => [.call call]
  | .meet phase step requests =>
    ((Topic.meet phase step requests).script whole).map fun all => .ask (.ofRank whole size all r)

def complaints (whole : Bool) (conduct : Conduct) : Topic → List Complaint
  | .look _ => []
  | .work phase step call => ((conduct.fault? call).map (.node phase step)).toList
  | .meet phase step _ => if whole then [] else [.group phase step]

end Topic

abbrev Agenda := List Topic

namespace Agenda

def script (whole : Bool) (a : Agenda) : List (Nat → Request) := a.flatMap (Topic.script whole)

def course (whole : Bool) (size r : Nat) (a : Agenda) : Course := a.flatMap (Topic.course whole size r)

def complaints (whole : Bool) (conduct : Conduct) (a : Agenda) : List Complaint :=
  a.flatMap (Topic.complaints whole conduct)

variable {whole : Bool} {size r : Nat}

@[simp] theorem course_append (a b : Agenda) :
    course whole size r (a ++ b) = course whole size r a ++ course whole size r b :=
  List.flatMap_append

@[simp] theorem complaints_append {conduct : Conduct} (a b : Agenda) :
    complaints whole conduct (a ++ b) = complaints whole conduct a ++ complaints whole conduct b :=
  List.flatMap_append

@[simp] theorem script_append (a b : Agenda) :
    script whole (a ++ b) = script whole a ++ script whole b := List.flatMap_append

theorem asks_topic (e : Topic) : (e.course whole size r).asks =
    (e.script whole).map fun all => .ofRank whole size all r := by
  cases e with
  | look call | work phase step call => rfl
  | meet phase step script => exact Course.asks_map_ask _ _

theorem asks_course (a : Agenda) :
    (a.course whole size r).asks = (a.script whole).map fun all => .ofRank whole size all r := by
  induction a with
  | nil => rfl
  | cons e a ih =>
    rw [course, List.flatMap_cons, Course.asks_append, asks_topic, script, List.flatMap_cons,
      List.map_append]
    exact congrArg _ ih

/-! ### What concerns the node only -/

/-- What is on an agenda besides the collective steps. -/
def own (a : Agenda) : Agenda :=
  a.filter fun
    | .look _ | .work _ _ _ => true
    | .meet _ _ _ => false

@[simp] theorem own_append (a b : Agenda) : own (a ++ b) = own a ++ own b := List.filter_append _ _

def calls (a : Agenda) : List SeatCall :=
  a.own.filterMap fun
    | .look call | .work _ _ call => some call
    | .meet _ _ _ => none

@[simp] theorem calls_append (a b : Agenda) : calls (a ++ b) = calls a ++ calls b := by
  rw [calls, own_append, List.filterMap_append]
  rfl

theorem calls_course (a : Agenda) : (a.course whole size r).calls = a.calls := by
  induction a with
  | nil => rfl
  | cons e a ih =>
    rw [course, List.flatMap_cons, Course.calls_append]
    cases e with
    | look call => exact congrArg (call :: ·) ih
    | work phase step call => exact congrArg (call :: ·) ih
    | meet phase step script =>
      rw [Topic.course, Course.calls_map_ask]
      exact ih

def failures (conduct : Conduct) (a : Agenda) : List PhaseFailure :=
  a.filterMap fun
    | .work phase step call =>
      (conduct.fault? call).map fun e => ⟨phase, s!"{step} failed: {e.message}"⟩
    | _ => none

theorem failures_of_fits {conduct : Conduct} {a : Agenda} {fs : List PhaseFailure}
    (h : List.Forall₂ Complaint.Fits (a.complaints true conduct) fs) : fs = a.own.failures conduct := by
  induction a generalizing fs with
  | nil => exact List.forall₂_nil_left_iff.mp h
  | cons e a ih =>
    cases e with
    | look call => exact ih h
    | meet phase step script => exact ih h
    | work phase step call =>
      simp only [complaints, List.flatMap_cons, Topic.complaints] at h
      cases hfault : conduct.fault? call with
      | none =>
        rw [hfault] at h
        exact (ih h).trans (by simp [failures, own, hfault])
      | some fault =>
        rw [hfault] at h
        obtain ⟨f, fs, hf, hfs, rfl⟩ := List.forall₂_cons_left_iff.mp h
        rw [ih hfs, show f = _ from hf]
        simp [failures, own, hfault]

end Agenda

/-! ## Parts of a cycle -/

namespace Cycle

variable {α β : Type} {m : Member} {conduct : Conduct} {whole : Bool}

/-- A part of the cycle of a rank goes along a course, and the failures that it adds are about the
complaints. -/
def Leads (m : Member) (conduct : Conduct) (course : Course) (complaints : List Complaint)
    (before after : NodeState) (P : α → Prop) (c : Cycle α) : Prop :=
  ∀ s : CycleState, s.node = before → Goes m conduct (fun k x => P x.1 ∧ x.2.sequence = k ∧
    x.2.node = after ∧ ∃ new, x.2.failures = s.failures ++ new ∧
      List.Forall₂ Complaint.Fits complaints new) course s.sequence (StateT.run c s)

def Takes (m : Member) (conduct : Conduct) (whole : Bool) (agenda : Agenda)
    (before after : NodeState) (P : α → Prop) (c : Cycle α) : Prop :=
  c.Leads m conduct (agenda.course whole m.size m.rank) (agenda.complaints whole conduct)
    before after P

theorem leads_pure {s : NodeState} {P : α → Prop} {a : α} (h : P a) :
    Leads m conduct [] [] s s P (pure a) :=
  fun _ hst => .done _ _ ⟨h, rfl, hst, [], (List.append_nil _).symm, .nil⟩

theorem Leads.bind {course course' : Course} {xs ys : List Complaint} {s s' s'' : NodeState}
    {P : α → Prop} {Q : β → Prop} {c : Cycle α} {f : α → Cycle β}
    (h : c.Leads m conduct course xs s s' P)
    (hf : ∀ a, P a → (f a).Leads m conduct course' ys s' s'' Q) :
    (c >>= f).Leads m conduct (course ++ course') (xs ++ ys) s s'' Q := by
  intro st hst
  refine (h st hst).bind ?_
  rintro _ ⟨a, st'⟩ ⟨ha, rfl, hst', new, hnew, hfits⟩
  refine (hf a ha st' hst').mono ?_
  rintro _ ⟨b, st''⟩ ⟨hb, hk, hst'', new', hnew', hfits'⟩
  refine ⟨hb, hk, hst'', new ++ new', ?_, List.rel_append hfits hfits'⟩
  rw [hnew', hnew, List.append_assoc]

theorem Leads.silent {course : Course} {xs : List Complaint} {s s' s'' : NodeState} {P : α → Prop}
    {Q : β → Prop} {c : Cycle α} {f : α → Cycle β} (h : c.Leads m conduct [] [] s s' P)
    (hf : ∀ a, P a → (f a).Leads m conduct course xs s' s'' Q) :
    (c >>= f).Leads m conduct course xs s s'' Q := h.bind hf

theorem Leads.mono {course : Course} {xs : List Complaint} {s s' : NodeState} {P Q : α → Prop}
    {c : Cycle α} (h : c.Leads m conduct course xs s s' P) (hPQ : ∀ a, P a → Q a) :
    c.Leads m conduct course xs s s' Q :=
  fun st hst => (h st hst).mono fun _ _ ⟨ha, hrest⟩ => ⟨hPQ _ ha, hrest⟩

section

variable {s s' s'' : NodeState} {P : α → Prop} {Q : β → Prop} {c : Cycle α} {f : α → Cycle β}

theorem Takes.bind {a b : Agenda} (h : c.Takes m conduct whole a s s' P)
    (hf : ∀ x, P x → (f x).Takes m conduct whole b s' s'' Q) :
    (c >>= f).Takes m conduct whole (a ++ b) s s'' Q := by
  rw [Takes, Agenda.course_append, Agenda.complaints_append]
  exact Leads.bind h hf

theorem Takes.cons {topic : Topic} {a : Agenda} (h : c.Takes m conduct whole [topic] s s' P)
    (hf : ∀ x, P x → (f x).Takes m conduct whole a s' s'' Q) :
    (c >>= f).Takes m conduct whole (topic :: a) s s'' Q := h.bind hf

theorem Takes.silent {a : Agenda} (h : c.Takes m conduct whole [] s s' P)
    (hf : ∀ x, P x → (f x).Takes m conduct whole a s' s'' Q) :
    (c >>= f).Takes m conduct whole a s s'' Q := h.bind hf

end

/-! ## Steps without requests -/

section

variable {s t : NodeState}

theorem leads_log (level : Level) (text : String) :
    Leads m conduct [] [] s s (fun _ => True) (log level text) :=
  fun st hst => .log _ _ [] _ (leads_pure (P := fun _ => True) trivial st hst)

theorem takes_log (level : Level) (text : String) :
    Takes m conduct whole [] s s (fun _ => True) (log level text) := leads_log level text

theorem takes_status (m' : Member) (text : String) :
    Takes m conduct whole [] s s (fun _ => True) (status m' text) := by
  refine (takes_log .debug text).silent fun _ _ => ?_
  split
  · exact takes_log .info text
  · exact leads_pure trivial

theorem takes_enter (h : s.next? = some t) (phase : Phase) :
    Takes m conduct whole [] s t (fun _ => True) (enter phase t) := by
  intro st hst
  have hrun : StateT.run (enter phase t) st = .done ((), { st with node := t }) := by
    have hadvance : st.node.advance t = .ok t := by rw [NodeState.advance, hst, if_pos h]
    simp only [enter, StateT.run_bind, StateT.run_get]
    show StateT.run _ st = _
    simp only [hadvance]
    rfl
  rw [hrun]
  exact .done _ _ ⟨trivial, rfl, rfl, [], (List.append_nil _).symm, .nil⟩

theorem leads_ask (call : SeatCall) {a : call.Answer} (ha : conduct.answer? call = some a) :
    Leads m conduct [.call call] [] s s (· = a) (seat (.ask call .done)) :=
  fun st hst => .call call a _ [] _ ha (leads_pure (P := (· = a)) rfl st hst)

theorem takes_role :
    Takes m conduct whole [.look .role] s s (· = conduct.role) (seat Seat.role) :=
  leads_ask .role rfl

theorem takes_outcome :
    Takes m conduct whole [.look .outcome] s s (· = conduct.outcome) (seat Seat.outcome) :=
  leads_ask .outcome rfl

/-! ## Steps that may fail -/

theorem leads_fail {x : Complaint} {phase : Phase} {step reason : String}
    (hx : x.Fits ⟨phase, s!"{step} failed: {reason}"⟩) :
    Leads m conduct [] [x] s s (fun _ => True) (fail phase step reason) := by
  refine (leads_log .error _).silent fun _ _ => fun st hst => ?_
  exact .done _ _ ⟨trivial, rfl, hst, [_], rfl, .cons hx .nil⟩

theorem leads_check_error {ε : Type} {x : Complaint} {phase : Phase} {step : String}
    {reason : ε → String} {e : ε} (hx : x.Fits ⟨phase, s!"{step} failed: {reason e}"⟩) :
    Leads m conduct [] [x] s s (· = none) (check (α := α) phase step reason (.error e)) :=
  (leads_fail hx).bind fun _ _ => leads_pure rfl

theorem leads_alone {call : SeatCall} {x : Except Fault Unit} {d : Dialogue Seat (Except Fault Unit)}
    (hd : Leads m conduct [.call call] [] s s (· = x) (seat d)) (phase : Phase) (step : String)
    (hx : conduct.fault? call = faultOf? x) :
    Takes m conduct whole [.work phase step call] s s (fun _ => True) (alone phase step d) := by
  rw [Takes, Agenda.complaints, List.flatMap_singleton, Topic.complaints, hx]
  refine hd.bind fun y hy => ?_
  subst hy
  cases y with
  | ok u => exact (leads_pure (P := (· = some u)) rfl).silent fun _ _ => leads_pure trivial
  | error e =>
    -- The failure that is kept is the one that the node's call ended with.
    exact (leads_check_error (x := .node phase step e) rfl).bind fun _ _ => leads_pure trivial

theorem takes_phase (phase : Phase) (step : String) (p : NodePhase) :
    Takes m conduct whole [.work phase step (.phase p)] s s (fun _ => True)
      (alone phase step (Seat.phase p)) :=
  leads_alone (x := conduct.phase p) (leads_ask (.phase p) rfl) phase step rfl

theorem takes_report (phase : Phase) (step : String) (j : Journal) :
    Takes m conduct whole [.work phase step (.report j)] s s (fun _ => True)
      (alone phase step (Seat.report j)) :=
  leads_alone (x := conduct.report) (leads_ask (.report j) rfl) phase step rfl

/-! ## Collective steps -/

theorem leads_group {course : Course} {P : Except GroupError α → Prop} {c : Collective α}
    (h : c.Takes m conduct course P) : Leads m conduct course [] s s P (group c) := by
  intro st hst
  have hrun : StateT.run (group c) st = (Seat.link (c.start st.sequence)).bind fun x =>
      .done (x.1, { st with sequence := x.2 }) := by
    show ((Seat.link (c.start st.sequence)).bind fun x => .done (x, st)).bind _ = _
    rw [Dialogue.bind_assoc]
    rfl
  rw [hrun, ← List.append_nil course]
  refine (h st.sequence).bind ?_
  rintro k ⟨x, _⟩ ⟨rfl, hx⟩
  exact .done _ _ ⟨hx, rfl, hst, [], (List.append_nil _).symm, .nil⟩

theorem takes_together {P : α → Prop} {c : Collective α} {script : List (Nat → Request)}
    (h : c.Gives m conduct (script.map fun all => .ask (.ofRank true m.size all m.rank)) P)
    (phase : Phase) (step : String) :
    Takes m conduct true [.meet phase step script] s s (fun x => ∃ a, x = some a ∧ P a)
      (together phase step c) := by
  rw [Takes, Agenda.course, List.flatMap_singleton, ← List.append_nil (Topic.course _ _ _ _)]
  refine (leads_group h).bind ?_
  rintro _ ⟨a, rfl, ha⟩
  exact leads_pure ⟨a, rfl, ha⟩

theorem takes_together_failed {c : Collective α} {all : Nat → Request}
    {script : List (Nat → Request)} (h : c.Fails m conduct [.ask (.ofRank false m.size all m.rank)])
    (phase : Phase) (step : String) :
    Takes m conduct false [.meet phase step (all :: script)] s s (· = none)
      (together phase step c) := by
  rw [Takes, Agenda.course, List.flatMap_singleton]
  refine (leads_group h).bind ?_
  rintro _ ⟨e, rfl⟩
  exact leads_check_error ⟨e, rfl⟩

end

end Cycle

end Lagmeter
