import Lagmeter.Experiment.Run
import Lagmeter.Proofs.Crew.Parts
import Lagmeter.Proofs.Experiment.Expedition

/-!
# Parts of an experiment and their courses

A part of an experiment goes along a course of requests and calls of the node. What the venue answers
to the other calls is part of what is said of its end: the result, and all calls so far.
-/

namespace Lagmeter

/-! ## What a seat asks for -/

namespace Site

variable {α β : Type}

theorem seat_bind (d : Dialogue Seat α) (f : α → Dialogue Seat β) :
    seat (d.bind f) = (seat d).bind fun a => seat (f a) := by
  induction d with
  | done a => rfl
  | ask call next ih => exact congrArg (Dialogue.ask (I := Site) _) (funext fun a => ih a)

end Site

theorem Goes.site {α : Type} {m : Member} {v : Venue} {post : Nat → α → Prop} {course : Course}
    {k : Nat} {d : Dialogue Seat α} (h : Goes m v.conduct post course k d) (calls : List SiteCall) :
    Goes m v.conduct (fun k x => post k x.1 ∧ x.2 = calls ++ course.calls.map .seat) course k
      (v.resolve calls (Site.seat d)) := by
  induction h generalizing calls with
  | done k a ha => exact .done k _ ⟨ha, (List.append_nil _).symm⟩
  | log e next course k _ ih => exact .log e _ course k (ih calls)
  | call call a next course k ha _ ih =>
    refine .call call a _ course k ha ?_
    cases call with
    | link call => cases ha
    | _ =>
      refine (ih (calls ++ [.seat _])).mono ?_
      rintro k x ⟨hx, hcalls⟩
      exact ⟨hx, hcalls.trans (List.append_assoc ..)⟩
  | ask ask next course k _ ih =>
    rw [Site.seat_bind, Venue.resolve_bind, show Site.seat (Seat.link _) = Site.link _ from rfl,
      Venue.resolve_link, Dialogue.bind_assoc]
    exact .ask ask _ course k fun x hx => ih x hx calls

namespace Experiment

variable {α β : Type} {m : Member} {v : Venue} {course course' : Course} {calls calls' : List SiteCall}

/-- The part after operation number `k`. -/
def start (e : Experiment α) (k : Nat) : Dialogue Site (Except Fault α × Nat) :=
  StateT.run (ExceptT.run e) k

section

variable (m : Member) (v : Venue) (course : Course) (calls : List SiteCall)

/-- After some calls the part goes along the course, and `Q` holds of its result and of all calls. -/
def Takes (Q : Except Fault α → List SiteCall → Prop) (e : Experiment α) : Prop :=
  ∀ k, Goes m v.conduct (fun k' x => x.1.2 = k' ∧ Q x.1.1 x.2) course k (v.resolve calls (e.start k))

def Gives (P : α → List SiteCall → Prop) (e : Experiment α) : Prop :=
  e.Takes m v course calls fun x calls' => ∃ a, x = .ok a ∧ P a calls'

end

/-! ## One part after the other -/

theorem start_bind (e : Experiment α) (f : α → Experiment β) (k : Nat) :
    (e >>= f).start k = (e.start k).bind fun x => match x.1 with
      | .ok a => (f a).start x.2
      | .error fault => .done (.error fault, x.2) := by
  refine congrArg (Dialogue.bind (e.start k)) (funext fun x => ?_)
  obtain ⟨x, k'⟩ := x
  cases x <;> rfl

theorem takes_pure {Q : Except Fault α → List SiteCall → Prop} {a : α} (h : Q (.ok a) calls) :
    Takes m v [] calls Q (pure a) :=
  fun k => .done k _ ⟨rfl, h⟩

theorem gives_pure {P : α → List SiteCall → Prop} {a : α} (h : P a calls) :
    Gives m v [] calls P (pure a) := takes_pure ⟨a, rfl, h⟩

section

variable {P : α → List SiteCall → Prop} {Q Q' : Except Fault α → List SiteCall → Prop}
  {R : Except Fault β → List SiteCall → Prop} {e : Experiment α} {f : α → Experiment β}

theorem Takes.mono (h : e.Takes m v course calls Q) (hQ : ∀ x calls', Q x calls' → Q' x calls') :
    e.Takes m v course calls Q' :=
  fun k => (h k).mono fun _ _ ⟨hk, hx⟩ => ⟨hk, hQ _ _ hx⟩

theorem Gives.bind (h : e.Gives m v course calls P)
    (hf : ∀ a calls', P a calls' → (f a).Takes m v course' calls' R) :
    (e >>= f).Takes m v (course ++ course') calls R := by
  intro k
  rw [start_bind, Venue.resolve_bind]
  refine (h k).bind ?_
  rintro _ ⟨⟨_, _⟩, calls'⟩ ⟨rfl, a, rfl, ha⟩
  exact hf a calls' ha _

theorem Gives.silent (h : e.Gives m v [] calls P)
    (hf : ∀ a calls', P a calls' → (f a).Takes m v course calls' R) :
    (e >>= f).Takes m v course calls R := h.bind hf

theorem Gives.cons {item : Item} (h : e.Gives m v [item] calls P)
    (hf : ∀ a calls', P a calls' → (f a).Takes m v course calls' R) :
    (e >>= f).Takes m v (item :: course) calls R := h.bind hf

theorem Takes.silent (h : e.Takes m v [] calls Q)
    (hf : ∀ a calls', Q (.ok a) calls' → (f a).Takes m v [] calls' R)
    (herror : ∀ fault calls', Q (.error fault) calls' → R (.error fault) calls') :
    (e >>= f).Takes m v [] calls R := by
  intro k
  rw [start_bind, Venue.resolve_bind, ← List.append_nil ([] : Course)]
  refine (h k).bind ?_
  rintro _ ⟨⟨x, _⟩, calls'⟩ ⟨rfl, hx⟩
  cases x with
  | ok a => exact hf a calls' hx _
  | error fault => exact .done _ _ ⟨rfl, herror fault calls' hx⟩

theorem start_tryCatch (e : Experiment α) (handle : Fault → Experiment α) (k : Nat) :
    start (tryCatch e handle) k = (e.start k).bind fun x => match x.1 with
      | .ok a => .done (.ok a, x.2)
      | .error fault => (handle fault).start x.2 := by
  refine congrArg (Dialogue.bind (e.start k)) (funext fun x => ?_)
  obtain ⟨x, k'⟩ := x
  cases x <;> rfl

theorem gives_tryCatch {handle : Fault → Experiment α} (h : e.Takes m v [] calls Q)
    (hok : ∀ a calls', Q (.ok a) calls' → P a calls')
    (herror : ∀ fault calls', Q (.error fault) calls' → (handle fault).Gives m v [] calls' P) :
    Gives m v [] calls P (tryCatch e handle) := by
  intro k
  rw [start_tryCatch, Venue.resolve_bind, ← List.append_nil ([] : Course)]
  refine (h k).bind ?_
  rintro _ ⟨⟨x, _⟩, calls'⟩ ⟨rfl, hx⟩
  cases x with
  | ok a => exact .done _ _ ⟨rfl, a, rfl, hok a calls' hx⟩
  | error fault => exact herror fault calls' hx _

end

/-! ## Steps without requests -/

theorem start_site (d : Dialogue Site α) (k : Nat) :
    (site d).start k = d.bind fun a => .done (.ok a, k) := by
  show (d.bind fun a => .done (a, k)).bind (fun x => .done ((.ok x.1 : Except Fault α), x.2)) = _
  rw [Dialogue.bind_assoc]
  rfl

theorem start_attempt (d : Dialogue Site (Except Fault α)) (k : Nat) :
    (attempt d).start k = d.bind fun x => .done (x, k) := rfl

theorem gives_site {d : Dialogue Site α} {a : α} (h : v.resolve calls d = .done (a, calls')) :
    Gives m v [] calls (fun b calls'' => b = a ∧ calls'' = calls') (site d) := by
  intro k
  rw [start_site, Venue.resolve_bind, h]
  exact .done k _ ⟨rfl, a, rfl, rfl, rfl⟩

theorem takes_attempt {d : Dialogue Site (Except Fault α)} {x : Except Fault α}
    (h : v.resolve calls d = .done (x, calls')) :
    Takes m v [] calls (fun y calls'' => y = x ∧ calls'' = calls') (attempt d) := by
  intro k
  rw [start_attempt, Venue.resolve_bind, h]
  exact .done k _ ⟨rfl, rfl, rfl⟩

theorem gives_log (level : Level) (text : String) :
    Gives m v [] calls (fun _ calls' => calls' = calls) (log level text) :=
  fun k => .log _ _ [] k (.done k _ ⟨rfl, (), rfl, rfl⟩)

theorem gives_tell (events : List Event) :
    Gives m v [] calls (fun _ calls' => calls' = calls) (tell events) := by
  induction events with
  | nil => exact gives_pure rfl
  | cons e rest ih =>
    refine (gives_log e.level e.text).silent fun _ _ hcalls => ?_
    rw [hcalls]
    exact ih

/-! ## Requests -/

theorem start_group (c : Collective α) (k : Nat) :
    (group c).start k = (Site.link (c.start k)).bind fun x => .done (.ok x.1, x.2) := by
  show ((((Site.link (c.start k)).bind fun x => .done (x, k)).bind _).bind _) = _
  rw [Dialogue.bind_assoc, Dialogue.bind_assoc]
  rfl

theorem gives_group {P : Except GroupError α → Prop} {c : Collective α}
    (h : c.Takes m v.conduct course P) :
    Gives m v course calls (fun x calls' => P x ∧ calls' = calls) (group c) := by
  intro k
  rw [start_group, Venue.resolve_bind, Venue.resolve_link, Dialogue.bind_assoc,
    ← List.append_nil course]
  refine (h k).bind ?_
  rintro _ ⟨x, _⟩ ⟨rfl, hx⟩
  exact .done _ _ ⟨rfl, x, rfl, hx, rfl⟩

theorem gives_together {P : α → Prop} {c : Collective α} (h : c.Gives m v.conduct course P)
    (purpose : String) :
    Gives m v course calls (fun a calls' => P a ∧ calls' = calls) (together purpose c) := by
  rw [← List.append_nil course]
  refine (gives_group h).bind ?_
  rintro _ _ ⟨⟨a, rfl, ha⟩, rfl⟩
  exact gives_pure ⟨ha, rfl⟩

/-! ## All ranks of a group -/

section

variable {C : Carrier} {lines : C.State → Lines} {t : C.State} {g : Roster} {venue : Nat → Venue}
  {n : Expedition C (Except Fault α × Nat)}

/-- What is known of the ranks of a whole group that have the same part of an experiment before them,
after operation number `base`. -/
def charter (g : Roster) (venue : Nat → Venue) (course : Nat → Course) (base : Nat)
    (Q : Nat → Except Fault α → List SiteCall → Prop) :
    Charter ((Except Fault α × Nat) × List SiteCall) where
  roster := g
  missing := ∅
  base
  conduct := Expedition.conduct venue
  course
  post r k x := x.1.2 = k ∧ Q r x.1.1 x.2

theorem concerted_charter {course : Nat → Course} {base : Nat}
    {Q : Nat → Except Fault α → List SiteCall → Prop} {script : List (Nat → Request)}
    (hasks : ∀ r < g.size, (course r).asks = script.map fun all => .ofRank true g.size all r)
    (hgranted : ∀ all ∈ script, Request.Granted g all) :
    (charter g venue course base Q).Concerted script where
  missing := nofun
  asks r hr := by
    rw [decide_eq_true (show (charter g venue course base Q).missing = ∅ from rfl)]
    exact hasks r hr.1
  granted _ := hgranted

/-- All ranks come to the end of the part, in step, and each of them has what is said of its end. -/
theorem of_takes (hC : C.Faithful g.size lines) (ht : (lines t).Fresh g.size)
    {course : Nat → Course} {Q : Nat → Except Fault α → List SiteCall → Prop}
    {script : List (Nat → Request)} {e : Nat → Experiment α} {base : Nat}
    (hasks : ∀ r < g.size, (course r).asks = script.map fun all => .ofRank true g.size all r)
    (hgranted : ∀ all ∈ script, Request.Granted g all)
    (he : ∀ r < g.size, (e r).Takes (g.member r) (venue r) (course r) [] (Q r))
    (hn : (Expedition.start t fun r => (e r).start base).Reaches g.size venue n) :
    ((∃ n', n.Step g.size venue n') ∨ ∀ r < g.size, ∃ x, n.Done r x) ∧
    n.Unfailing (charter g venue course base Q) lines venue ∧
    (∀ r < g.size, ∀ x, n.Done r x → x.2 = base + script.length ∧ Q r x.1 (n.calls r)) ∧
    ((∀ r < g.size, ∃ x, n.Done r x) → (lines n.carrier).Fresh g.size) :=
  Expedition.of_charter (v := charter g venue course base Q) hC
    (concerted_charter hasks hgranted) rfl rfl ht (fun r hr => he r hr base) hn

end

end Experiment

end Lagmeter
