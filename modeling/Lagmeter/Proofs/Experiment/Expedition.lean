import Lagmeter.Experiment.Site
import Lagmeter.Proofs.Crew.Progress

/-!
# Expeditions

An expedition is a group whose ranks are at their sites: each follows a dialogue with its link, its
node, its store and the files. What a venue answers to a rank concerns no other rank. So an
expedition goes the way of a crew whose ranks have these answers at once.
-/

namespace Lagmeter

/-- A node that has nothing to do. -/
def Conduct.idle : Conduct where
  phase _ := .ok ()
  report := .ok ()
  role := .idle
  outcome := { role := .idle }

/-- What is answered where clocks stand still, nothing fails and nothing is found. -/
def SiteCall.plain : (call : SiteCall) → call.Answer
  | .seat (.link (.send _ _)) | .seat (.link .close) => Except.ok ()
  | .seat (.link (.receive _)) => Except.ok default
  | .seat (.link .leave) | .seat (.link (.log _)) => ()
  | .seat (.phase _) | .seat (.report _) => Except.ok ()
  | .seat .role => Role.idle
  | .seat .outcome => ({ role := .idle } : Outcome)
  | .work (.store (.populate _)) | .work (.store (.churn _)) => Except.ok (0 : Nat)
  | .work (.store (.publish _)) => Except.ok ()
  | .work (.store .observe) => Except.ok none
  | .work (.store (.unsubscribe _)) => false
  | .work (.store .entries) | .work .changes | .work .moment | .work .wallClock
  | .work .stopwatch => (0 : Nat)
  | .work (.await _) => WaitOutcome.timedOut
  | .work (.sleep _) | .work (.sleepUntil _) | .work (.log _) => ()
  | .drawKeys _ => ([] : List Int)
  | .openStructure _ | .writeReport _ _ => Except.ok ()
  | .subscribe => (0 : Nat)
  | .play _ => ()
  | .findLogs _ _ => Except.ok ([] : List String)
  | .readLog _ => Except.ok ""

/-- What a rank finds at its site: its node, its draws, its structure and its report. -/
structure Venue where
  conduct : Conduct
  draws : Draws
  opening : Except StoreError Unit
  writing : Except Fault Unit
  /-- What is answered to any other call, given the calls before it. -/
  other : List SiteCall → (call : SiteCall) → call.Answer := fun _ call => call.plain

namespace Venue

/-- The answer to a call that is neither for the link nor for the node. -/
def site (v : Venue) (calls : List SiteCall) : (call : SiteCall) → call.Answer
  | .drawKeys b => (b.drawKeys v.draws).1
  | .openStructure _ => v.opening
  | .writeReport _ _ => v.writing
  | call => v.other calls call

/-- The answer to a call, unless it is for the link. -/
def answer? (v : Venue) (calls : List SiteCall) : (call : SiteCall) → Option call.Answer
  | .seat call => v.conduct.answer? call
  | call => some (v.site calls call)

end Venue

/-- The calls with one more. Calls of the link are not remembered. -/
def SiteCall.noted (calls : List SiteCall) : SiteCall → List SiteCall
  | .seat (.link _) => calls
  | call => calls ++ [call]

structure Expedition (C : Carrier) (α : Type) where
  carrier : C.State
  talk : Nat → Dialogue Site α
  /-- The calls of each rank that were answered, those of its link apart. -/
  calls : Nat → List SiteCall

namespace Expedition

variable {C : Carrier} {α : Type} {size : Nat} {venue : Nat → Venue} {n n' : Expedition C α}

def start (t : C.State) (talk : Nat → Dialogue Site α) : Expedition C α := ⟨t, talk, fun _ => []⟩

def put (n : Expedition C α) (r : Nat) (t : C.State) (d : Dialogue Site α) (calls : List SiteCall) :
    Expedition C α :=
  ⟨t, Function.update n.talk r d, Function.update n.calls r calls⟩

/-- A step of rank `r`, of its link or at its site. -/
inductive Act (v : Venue) (r : Nat) (t : C.State) (calls : List SiteCall) :
    Dialogue Site α → C.State → Dialogue Site α → List SiteCall → Prop where
  | talk (call : LinkCall) (next : call.Answer → Dialogue Site α) (a : call.Answer) (t' : C.State)
      (ha : C.Answers t r call a t') :
    Act v r t calls (.ask (SiteCall.seat (.link call)) next) t' (next a) calls
  | answer (call : SiteCall) (next : call.Answer → Dialogue Site α) (a : call.Answer)
      (ha : v.answer? calls call = some a) :
    Act v r t calls (.ask call next) t (next a) (call.noted calls)

def Step (size : Nat) (venue : Nat → Venue) (n n' : Expedition C α) : Prop :=
  ∃ r < size, ∃ t' d' calls', Act (venue r) r n.carrier (n.calls r) (n.talk r) t' d' calls' ∧
    n' = n.put r t' d' calls'

def Reaches (size : Nat) (venue : Nat → Venue) : Expedition C α → Expedition C α → Prop :=
  Relation.ReflTransGen (Step size venue)

def Done (n : Expedition C α) (r : Nat) (a : α) : Prop := n.talk r = .done a

/-! ## Every run ends -/

/-- The dialogue `d` can come right after `e`. -/
def Follows (d e : Dialogue Site α) : Prop :=
  ∃ (call : SiteCall) (next : call.Answer → Dialogue Site α) (a : call.Answer),
    e = .ask call next ∧ d = next a

theorem wellFounded_follows : WellFounded (Follows (α := α)) := by
  constructor
  intro d
  induction d with
  | done a =>
    constructor
    rintro y ⟨_, _, _, h, -⟩
    cases h
  | ask call next ih =>
    constructor
    rintro y ⟨_, _, a, h, rfl⟩
    cases h
    exact ih a

theorem Act.follows {v : Venue} {r : Nat} {t t' : C.State} {calls calls' : List SiteCall}
    {d d' : Dialogue Site α} (h : Act v r t calls d t' d' calls') : Follows d' d := by
  cases h with
  | talk call next a t' ha => exact ⟨.seat (.link call), next, a, rfl, rfl⟩
  | answer call next a ha => exact ⟨call, next, a, rfl, rfl⟩

theorem wellFounded_step : WellFounded fun n' n : Expedition C α => Step size venue n n' := by
  refine Subrelation.wf ?_ (InvImage.wf (fun (n : Expedition C α) => n.talk)
    (wellFounded_schedule size wellFounded_follows))
  rintro n' n ⟨r, hr, t', d', calls', hact, rfl⟩
  refine ⟨r, hr, ?_, fun q hq => ?_⟩
  · simpa only [put, Function.update_self] using hact.follows
  · simp only [put, Function.update_of_ne hq]

theorem exists_end {P : Expedition C α → Prop} (n : Expedition C α)
    (h : ∀ n', n.Reaches size venue n' → (∃ n'', n'.Step size venue n'') ∨ P n') :
    ∃ n', n.Reaches size venue n' ∧ P n' :=
  exists_end_of_wellFounded wellFounded_step n h

end Expedition

/-! ## Dialogues at a venue -/

namespace Venue

variable {α β : Type}

/-- What a rank says to its link and its node, if the venue answers the rest. -/
def resolve (v : Venue) (calls : List SiteCall) : Dialogue Site α → Dialogue Seat (α × List SiteCall)
  | .done a => .done (a, calls)
  | .ask (.seat call) next =>
    .ask call fun a => v.resolve ((SiteCall.seat call).noted calls) (next a)
  | .ask call next => v.resolve (call.noted calls) (next (v.site calls call))

variable {v : Venue} {calls : List SiteCall}

theorem resolve_bind (d : Dialogue Site α) (f : α → Dialogue Site β) :
    v.resolve calls (d.bind f) = (v.resolve calls d).bind fun x => v.resolve x.2 (f x.1) := by
  induction d generalizing calls with
  | done a => rfl
  | ask call next ih =>
    cases call with
    | seat call => exact congrArg (Dialogue.ask (I := Seat) call) (funext fun a => ih a)
    | _ => exact ih _

theorem resolve_link (d : Dialogue Link α) :
    v.resolve calls (Site.link d) = (Seat.link d).bind fun a => .done (a, calls) := by
  induction d with
  | done a => rfl
  | ask call next ih => exact congrArg (Dialogue.ask (I := Seat) _) (funext fun a => ih a)

end Venue

/-! ## Expeditions and crews -/

namespace Crew

variable {C : Carrier} {α : Type} {size : Nat} {missing : Finset Nat} {conduct : Nat → Conduct}
  {x : Crew C α} {r : Nat}

theorem put_put (x : Crew C α) (r : Nat) (t t' : C.State) (h h' : Hand α) :
    (x.put r t h).put r t' h' = x.put r t' h' := by
  simp only [put, Function.update_idem]

theorem reaches_call (hr : r < size) (hmissing : r ∉ missing) {call : SeatCall}
    {next : call.Answer → Dialogue Seat α} {a : call.Answer}
    (hdoing : (x.hand r).doing = .talking (.ask call next))
    (ha : (conduct r).answer? call = some a) :
    ∃ h', x.Reaches size missing conduct (x.put r x.carrier h') ∧ h'.doing = .talking (next a) := by
  let busy : Hand α := { doing := .working call next, deeds := (x.hand r).deeds ++ [.began call] }
  have hbegin : x.Step size missing conduct (x.put r x.carrier busy) :=
    ⟨r, hr, hmissing, _, _, .begin call next a hdoing ha, rfl⟩
  have hbusy : ((x.put r x.carrier busy).hand r).doing = .working call next := by rw [put_hand]
  have hfinish : (x.put r x.carrier busy).Step size missing conduct _ :=
    ⟨r, hr, hmissing, _, _, .finish call next a hbusy ha, rfl⟩
  rw [put_put] at hfinish
  exact ⟨_, .tail (.single hbegin) hfinish, rfl⟩

end Crew

namespace Expedition

variable {C : Carrier} {α : Type} {size : Nat} {venue : Nat → Venue} {n n' : Expedition C α}
  {x : Crew C (α × List SiteCall)} {r : Nat}

def conduct (venue : Nat → Venue) (r : Nat) : Conduct := (venue r).conduct

/-- The ranks of the crew say what those of the expedition say to their links and nodes. -/
def Mirrors (venue : Nat → Venue) (n : Expedition C α) (x : Crew C (α × List SiteCall)) : Prop :=
  x.carrier = n.carrier ∧
    ∀ r, (x.hand r).doing = .talking ((venue r).resolve (n.calls r) (n.talk r))

def crew (venue : Nat → Venue) (t : C.State) (talk : Nat → Dialogue Site α) :
    Crew C (α × List SiteCall) := .start t fun r => (venue r).resolve [] (talk r)

theorem mirrors_start (t : C.State) (talk : Nat → Dialogue Site α) :
    Mirrors venue (start t talk) (crew venue t talk) := ⟨rfl, fun _ => rfl⟩

theorem Mirrors.put (h : n.Mirrors venue x) {t' : C.State} {d' : Dialogue Site α}
    {calls' : List SiteCall} {h' : Hand (α × List SiteCall)}
    (hdoing : h'.doing = .talking ((venue r).resolve calls' d')) :
    (n.put r t' d' calls').Mirrors venue (x.put r t' h') := by
  refine ⟨rfl, fun q => ?_⟩
  by_cases hq : q = r
  · subst hq
    simpa only [Crew.put_hand, Expedition.put, Function.update_self] using hdoing
  · simpa only [Crew.put_hand_ne hq, Expedition.put, Function.update_of_ne hq] using h.2 q

theorem Mirrors.quiet (h : n.Mirrors venue x) {d' : Dialogue Site α} {calls' : List SiteCall}
    (hsame : (venue r).resolve calls' d' = (venue r).resolve (n.calls r) (n.talk r)) :
    (n.put r n.carrier d' calls').Mirrors venue x := by
  have hput : (n.put r n.carrier d' calls').Mirrors venue (x.put r n.carrier (x.hand r)) :=
    h.put (hsame ▸ h.2 r)
  rw [Crew.put, Function.update_eq_self] at hput
  exact h.1 ▸ hput

/-- A step of the expedition is one of the crew, or nothing that the crew sees but a call of a node. -/
theorem Mirrors.step (h : n.Mirrors venue x) (hstep : n.Step size venue n') :
    ∃ x', x.Reaches size ∅ (conduct venue) x' ∧ n'.Mirrors venue x' := by
  obtain ⟨r, hr, t', d', calls', hact, rfl⟩ := hstep
  have hdoing := h.2 r
  have hmissing : r ∉ (∅ : Finset Nat) := Finset.notMem_empty r
  generalize htalk : n.talk r = d at hact hdoing
  cases hact with
  | talk call next a _ ha =>
    refine ⟨_, .single ⟨r, hr, hmissing, t', _, .talk call _ a t' hdoing (h.1 ▸ ha), rfl⟩, h.put rfl⟩
  | answer call next a ha =>
    cases call with
    | seat call =>
      have hanswer : (conduct venue r).answer? call = some a := ha
      obtain ⟨h', hreaches, hdoing'⟩ := Crew.reaches_call hr hmissing hdoing hanswer
      rw [h.1] at hreaches
      exact ⟨_, hreaches, h.put hdoing'⟩
    | _ =>
      cases ha
      refine ⟨x, .refl, h.quiet ?_⟩
      rw [htalk]
      rfl

theorem exists_mirror {t : C.State} {talk : Nat → Dialogue Site α}
    (hn : (start t talk).Reaches size venue n) :
    ∃ x, (crew venue t talk).Reaches size ∅ (conduct venue) x ∧ n.Mirrors venue x := by
  induction hn with
  | refl => exact ⟨_, .refl, mirrors_start t talk⟩
  | tail _ hstep ih =>
    obtain ⟨x, hx, hmirrors⟩ := ih
    obtain ⟨x', hx', hmirrors'⟩ := hmirrors.step hstep
    exact ⟨x', hx.trans hx', hmirrors'⟩

theorem Mirrors.done (h : n.Mirrors venue x) {a : α} (hdone : n.Done r a) :
    x.Done r (a, n.calls r) := by
  rw [Crew.Done, h.2 r, show n.talk r = .done a from hdone]
  rfl

theorem step_of_answer (hr : r < size) {call : SiteCall} {next : call.Answer → Dialogue Site α}
    (htalk : n.talk r = .ask call next) {a : call.Answer}
    (ha : (venue r).answer? (n.calls r) call = some a) : ∃ n', n.Step size venue n' := by
  refine ⟨n.put r n.carrier (next a) (call.noted (n.calls r)), r, hr, _, _, _, ?_, rfl⟩
  rw [htalk]
  exact .answer call next a ha

theorem step_of_site (hr : r < size) {call : SiteCall} {next : call.Answer → Dialogue Site α}
    (htalk : n.talk r = .ask call next) (h : ∀ c, call ≠ .seat c) : ∃ n', n.Step size venue n' := by
  cases call with
  | seat c => exact absurd rfl (h c)
  | _ => exact step_of_answer hr htalk rfl

theorem Mirrors.step_of_crew (h : n.Mirrors venue x) {x' : Crew C (α × List SiteCall)}
    (hstep : x.Step size ∅ (conduct venue) x') : ∃ n', n.Step size venue n' := by
  obtain ⟨r, hr, -, t', h', hact, -⟩ := hstep
  have hdoing := h.2 r
  cases htalk : n.talk r with
  | done a =>
    rw [htalk] at hdoing
    cases hact with
    | talk _ _ _ _ hd _ => cases hd.symm.trans hdoing
    | begin _ _ _ hd _ => cases hd.symm.trans hdoing
    | finish _ _ _ hd _ => cases hd.symm.trans hdoing
  | ask call next =>
    cases call with
    | seat call =>
      rw [htalk] at hdoing
      cases hact with
      | talk call' _ a _ hd ha =>
        cases hd.symm.trans hdoing
        refine ⟨n.put r t' (next a) (n.calls r), r, hr, _, _, _, ?_, rfl⟩
        rw [htalk]
        exact .talk call' next a t' (h.1 ▸ ha)
      | begin call' _ a hd ha =>
        cases hd.symm.trans hdoing
        exact step_of_answer hr htalk ha
      | finish _ _ _ hd _ => cases hd.symm.trans hdoing
    | _ => exact step_of_site hr htalk nofun

theorem Mirrors.step_or_done (h : n.Mirrors venue x) (hr : r < size) {y : α × List SiteCall}
    (hdone : x.Done r y) : (∃ n', n.Step size venue n') ∨ n.Done r y.1 := by
  have hdoing := hdone.symm.trans (h.2 r)
  cases htalk : n.talk r with
  | done a =>
    rw [htalk] at hdoing
    cases hdoing
    exact .inr htalk
  | ask call next =>
    cases call with
    | seat call =>
      rw [htalk] at hdoing
      cases hdoing
    | _ => exact .inl (step_of_site hr htalk nofun)

/-! ## Expeditions with a charter -/

/-- Each exchange that a rank has been through is that of its next request, and gave the request a value. -/
def Unfailing (v : Charter (α × List SiteCall)) (lines : C.State → Lines) (venue : Nat → Venue)
    (n : Expedition C α) : Prop :=
  ∃ (x : Crew C (α × List SiteCall)) (s : Assembly (Lines.carrier v.roster.size) Silent Unit),
    n.Mirrors venue x ∧ v.Aligned lines x s ∧
      ∀ r < v.roster.size, ∀ (i : Nat) (y : Except GroupError Payload), (s.rank r).results[i]? = some y →
        ∃ (ask : Ask) (value : Yield), (v.course r).asks[i]? = some ask ∧
          y.bind (ask.request.finish (v.roster.member r)) = .ok value

variable {v : Charter (α × List SiteCall)} {script : List (Nat → Request)} {lines : C.State → Lines}

theorem value_of_met {ask : Ask} {y : Except GroupError Payload} {due : Yield}
    (hdue : ask.due = some due) (hmet : v.Met r ask y) :
    y.bind (ask.request.finish (v.roster.member r)) = .ok due := by
  unfold Charter.Met Ask.Met at hmet
  rwa [hdue] at hmet

theorem unfailing_of_aligned {s : Assembly (Lines.carrier v.roster.size) Silent Unit}
    (hv : v.Concerted script) (hwhole : v.missing = ∅) (h : n.Mirrors venue x)
    (haligned : v.Aligned lines x s) : n.Unfailing v lines venue := by
  refine ⟨x, s, h, haligned, fun r hr i y hi => ?_⟩
  have hpresent : v.Present r := ⟨hr, hwhole ▸ Finset.notMem_empty r⟩
  obtain ⟨w, hw⟩ := haligned.inStep
  obtain ⟨hlt, -⟩ := List.getElem?_eq_some_iff.mp hi
  have hin : i < script.length :=
    Nat.lt_of_lt_of_le hlt (haligned.results_le hv hw hpresent).1
  have hask : (v.course r).asks[i]? = some (.ofRank true v.roster.size script[i] r) := by
    rw [hv.asks r hpresent, List.getElem?_map, List.getElem?_eq_getElem hin, Option.map_some,
      decide_eq_true hwhole]
  exact ⟨_, _, hask, value_of_met rfl (hv.met haligned.attends hw hpresent hi hask)⟩

/-- All ranks of a group go along their courses, and no exchange fails. -/
theorem of_charter (hC : C.Faithful v.roster.size lines) (hv : v.Concerted script)
    (hwhole : v.missing = ∅) (hconduct : v.conduct = conduct venue) {t : C.State}
    (ht : (lines t).Fresh v.roster.size) {talk : Nat → Dialogue Site α}
    (hgoes : ∀ r < v.roster.size, v.Goes r [] (v.course r) ((venue r).resolve [] (talk r)))
    (hn : (start t talk).Reaches v.roster.size venue n) :
    ((∃ n', n.Step v.roster.size venue n') ∨ ∀ r < v.roster.size, ∃ a, n.Done r a) ∧
    n.Unfailing v lines venue ∧
    (∀ r < v.roster.size, ∀ a, n.Done r a → v.post r (v.base + script.length) (a, n.calls r)) ∧
    ((∀ r < v.roster.size, ∃ a, n.Done r a) → (lines n.carrier).Fresh v.roster.size) := by
  have hpresent {r : Nat} (hr : r < v.roster.size) : v.Present r := ⟨hr, hwhole ▸ Finset.notMem_empty r⟩
  obtain ⟨x, hx, hmirrors⟩ := exists_mirror hn
  have hcalm : (lines t).Calm v.roster.size v.missing := by
    rw [hwhole]
    exact Lines.calm_empty.mpr ht
  have hreaches : (crew venue t talk).Reaches v.roster.size v.missing v.conduct x := by
    rw [hwhole, hconduct]
    exact hx
  obtain ⟨s, haligned, hsettled⟩ :=
    Charter.aligned_of_reaches hC hv hcalm (fun r hr => hgoes r hr.1) hreaches
  refine ⟨?_, unfailing_of_aligned hv hwhole hmirrors haligned, fun r hr a ha => ?_, fun hdone => ?_⟩
  · rcases haligned.progress hC hv hsettled with ⟨x', hstep⟩ | hall
    · rw [hwhole, hconduct] at hstep
      exact .inl (hmirrors.step_of_crew hstep)
    · refine or_iff_not_imp_left.mpr fun hstuck r hr => ?_
      obtain ⟨y, hy⟩ := hall r (hpresent hr)
      exact ⟨y.1, (hmirrors.step_or_done hr hy).resolve_left hstuck⟩
  · have hpost := (haligned.done hsettled (hpresent hr) (hmirrors.done ha)).2.1
    rwa [hv.asks r (hpresent hr), List.length_map] at hpost
  · rw [← hmirrors.1]
    refine haligned.fresh hv hsettled hwhole fun r hr => ?_
    obtain ⟨a, ha⟩ := hdone r hr
    exact ⟨_, hmirrors.done ha⟩

end Expedition

end Lagmeter
