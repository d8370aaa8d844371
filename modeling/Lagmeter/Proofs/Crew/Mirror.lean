import Lagmeter.Proofs.Crew.Course
import Lagmeter.Proofs.Group.Attendance

/-!
# Crews and assemblies

A crew whose ranks go along their courses is mirrored by an assembly over lines: it enters and
concludes the exchanges that the crew's dialogues do not tell apart, and sees nothing of the nodes.
So what holds of ranks in step holds of crews.
-/

namespace Lagmeter

def Plan.inTurn {J : Interface} : List Offer → Plan J Unit
  | [] => .done ()
  | ρ :: rest => .ask (PlanCall.exchange ρ) fun _ => inTurn rest

/-! ## Charters -/

/-- What is known of a crew before it starts. -/
structure Charter (α : Type) where
  roster : Roster
  missing : Finset Nat
  /-- The number of the last exchange before. -/
  base : Nat
  conduct : Nat → Conduct
  course : Nat → Course
  /-- What each rank comes to after the exchange of a number. -/
  post : Nat → Nat → α → Prop

namespace Charter

variable {α : Type} (v : Charter α)

def Present (r : Nat) : Prop := r < v.roster.size ∧ r ∉ v.missing

def offer (r : Nat) (ask : Ask) : Offer := ask.request.offer (v.roster.member r)

def offers (r : Nat) (c : Course) : List Offer := c.asks.map (v.offer r)

/-- The result of the exchange is such that the request gives what was foretold. -/
def Met (r : Nat) (ask : Ask) (x : Except GroupError Payload) : Prop :=
  ask.Met (x.bind (ask.request.finish (v.roster.member r)))

def Goes (r : Nat) (past todo : Course) (d : Dialogue Seat α) : Prop :=
  Lagmeter.Goes (v.roster.member r) (v.conduct r) (v.post r) todo (v.base + past.asks.length) d

/-- The ranks make the same requests, each with values of its own, and get what is due. -/
structure Concerted (script : List (Nat → Request)) : Prop where
  missing : ∀ d ∈ v.missing, d < v.roster.size
  asks : ∀ r, v.Present r →
    (v.course r).asks = script.map fun all => .ofRank (v.missing = ∅) v.roster.size all r
  granted : v.missing = ∅ → ∀ all ∈ script, Request.Granted v.roster all

/-- An assembly in which the ranks that are missing have left, and all others have come to the
exchanges of their courses so far. -/
structure Attends (s : Assembly (Lines.carrier v.roster.size) Silent Unit) : Prop where
  missing : ∀ d ∈ v.missing, (∃ result, (s.rank d).stage = .gone result) ∧ (s.rank d).entered = []
  present : ∀ r, v.Present r →
    (∀ result, (s.rank r).stage ≠ .gone result) ∧ (s.rank r).entered <+: v.offers r (v.course r)

variable {v} {script : List (Nat → Request)}
  {s : Assembly (Lines.carrier v.roster.size) Silent Unit} {l : Lines} {w : Nat → Station} {r q i : Nat}

theorem Attends.put (ha : v.Attends s) (hr : v.Present r) {x : Rank Silent Unit}
    (hx : (∀ result, x.stage ≠ .gone result) ∧ x.entered <+: v.offers r (v.course r)) :
    v.Attends (s.put r l x) := by
  refine ⟨fun d hd => ?_, fun q hq => ?_⟩
  · have hdr : d ≠ r := fun hdr => hr.2 (hdr ▸ hd)
    rw [Assembly.put_rank_ne hdr]
    exact ha.missing d hd
  · by_cases hqr : q = r
    · subst hqr
      rw [Assembly.put_rank]
      exact hx
    · rw [Assembly.put_rank_ne hqr]
      exact ha.present q hq

theorem Attends.present_iff (ha : v.Attends s) (hw : Assembly.InStep v.roster v.base s l w)
    (hr : r < v.roster.size) : w r ≠ .gone ↔ r ∉ v.missing := by
  have hat := hw.standing r hr
  by_cases hmissing : r ∈ v.missing
  · obtain ⟨⟨result, hstage⟩, -⟩ := ha.missing r hmissing
    cases hwr : w r with
    | gone => simp [hmissing]
    | between =>
      have hstands := hat.stands
      rw [hwr] at hstands
      obtain ⟨⟨plan, hfree⟩, -⟩ := hstands
      rw [hstage] at hfree
      cases hfree
    | within place =>
      have hstands := hat.stands
      rw [hwr] at hstands
      obtain ⟨past, ρ, next, -, -, hbusy⟩ := hstands
      rw [hstage] at hbusy
      cases hbusy
  · simp only [hmissing, not_false_eq_true, iff_true]
    intro hgone
    have hstands := hat.stands
    rw [hgone] at hstands
    obtain ⟨result, hstage⟩ := hstands
    exact (ha.present r ⟨hr, hmissing⟩).1 result hstage

theorem Attends.offers_eq (ha : v.Attends s) (hv : v.Concerted script) (hq : v.Present q)
    (hi : i < (s.rank q).entered.length) (his : i < script.length) :
    s.offers i q = some ((script[i] q).offer (v.roster.member q)) := by
  have hprefix := (ha.present q hq).2
  rw [Assembly.offers, List.getElem?_eq_getElem hi, hprefix.getElem hi]
  simp [offers, offer, hv.asks q hq, Ask.ofRank]

/-- Every request gives what the reference says, or a failure if somebody is missing. -/
theorem Concerted.met (hv : v.Concerted script) (ha : v.Attends s)
    (hw : Assembly.InStep v.roster v.base s l w) (hr : v.Present r)
    {x : Except GroupError Payload} (hx : (s.rank r).results[i]? = some x) {ask : Ask}
    (hask : (v.course r).asks[i]? = some ask) : v.Met r ask x := by
  rw [hv.asks r hr, List.getElem?_map] at hask
  obtain ⟨all, hall, rfl⟩ := Option.map_eq_some_iff.mp hask
  obtain ⟨hi, -⟩ := List.getElem?_eq_some_iff.mp hx
  obtain ⟨his, hscript⟩ := List.getElem?_eq_some_iff.mp hall
  simp only [Met, Ask.Met, Ask.ofRank, decide_eq_true_eq]
  by_cases hwhole : v.missing = ∅
  · rw [if_pos hwhole]
    have hpresent {q : Nat} (hq : q < v.roster.size) : v.Present q := ⟨hq, by simp [hwhole]⟩
    have hhere {q : Nat} (hq : q < v.roster.size) : w q ≠ .gone :=
      (ha.present_iff hw hq).mpr (hpresent hq).2
    -- All ranks have come to the exchange, so that all of them bring what the script says.
    refine hw.granted (hv.granted hwhole all (List.mem_of_getElem? hall)) ?_ hr.1 hx
    intro q hq
    rw [← hscript]
    exact ha.offers_eq hv (hpresent hq) (hw.entered_of_result hr.1 hq (hhere (by omega))
      (hhere hr.1) (hhere hq) hi) his
  · -- A rank that is missing has entered no exchange.
    rw [if_neg hwhole]
    obtain ⟨d, hd⟩ := Finset.nonempty_iff_ne_empty.mpr hwhole
    obtain ⟨e, rfl⟩ := hw.error_of_missing (hv.missing d hd) (i := i)
      (by rw [Assembly.offers, (ha.missing d hd).2]; rfl) hr.1 hx
    exact ⟨e, rfl⟩

/-! ## Tracking -/

section

variable (v) (r : Nat) (x : Rank Silent Unit) (h : Hand α) (past todo : Course)

/-- Rank `r` goes through its dialogue and is in no exchange. The `past` of its course is behind it. -/
structure Between (d : Dialogue Seat α) : Prop where
  course : v.course r = past ++ todo
  doing : h.doing = .talking d
  deeds : h.deeds = deedsOf past.calls
  goes : v.Goes r past todo d
  stage : x.stage = .free (.inTurn (v.offers r todo))
  entered : x.entered = v.offers r past

structure Working (call : SeatCall) (next : call.Answer → Dialogue Seat α) : Prop where
  course : v.course r = past ++ .call call :: todo
  doing : h.doing = .working call next
  deeds : h.deeds = deedsOf past.calls ++ [.began call]
  goes : ∃ a, (v.conduct r).answer? call = some a ∧ v.Goes r past todo (next a)
  stage : x.stage = .free (.inTurn (v.offers r todo))
  entered : x.entered = v.offers r past

/-- Rank `r` is in the exchange of a request, where the dialogue of the exchange still has `talk` to
go. -/
structure Within (ask : Ask) (talk : Dialogue Link (Except GroupError Payload × Nat))
    (next : Except GroupError Payload × Nat → Dialogue Seat α) : Prop where
  course : v.course r = past ++ .ask ask :: todo
  doing : h.doing = .talking ((Seat.link talk).bind next)
  deeds : h.deeds = deedsOf past.calls
  goes : ∀ x, v.Met r ask x →
    v.Goes r (past ++ [.ask ask]) todo (next (x, v.base + past.asks.length + 1))
  stage : x.stage = .busy (v.offer r ask) talk fun _ => .inTurn (v.offers r todo)
  entered : x.entered = v.offers r (past ++ [.ask ask])

/-- Where rank `r` is on its course, seen from the crew and from the assembly. -/
inductive Tracks : Prop where
  | between (past todo : Course) (d : Dialogue Seat α) (ht : v.Between r x h past todo d)
  | working (past todo : Course) (call : SeatCall) (next : call.Answer → Dialogue Seat α)
      (ht : v.Working r x h past todo call next)
  | within (past todo : Course) (ask : Ask)
      (talk : Dialogue Link (Except GroupError Payload × Nat))
      (next : Except GroupError Payload × Nat → Dialogue Seat α)
      (ht : v.Within r x h past todo ask talk next)

end

theorem offers_append (r : Nat) (c d : Course) : v.offers r (c ++ d) = v.offers r c ++ v.offers r d := by
  simp [offers]

theorem Tracks.attends {x : Rank Silent Unit} {h : Hand α} (ht : v.Tracks r x h) :
    (∀ result, x.stage ≠ .gone result) ∧ x.entered <+: v.offers r (v.course r) := by
  cases ht with
  | between past todo d ht =>
    refine ⟨by simp [ht.stage], ?_⟩
    rw [ht.entered, ht.course, offers_append]
    exact List.prefix_append _ _
  | working past todo call next ht =>
    refine ⟨by simp [ht.stage], ?_⟩
    rw [ht.entered, ht.course, offers_append]
    exact List.prefix_append _ _
  | within past todo ask talk next ht =>
    refine ⟨by simp [ht.stage], ?_⟩
    rw [ht.entered, ht.course]
    exact ⟨v.offers r todo, by simp [offers]⟩

/-- The assembly stands where the crew does. -/
structure Aligned (v : Charter α) {C : Carrier} (lines : C.State → Lines) (n : Crew C α)
    (s : Assembly (Lines.carrier v.roster.size) Silent Unit) : Prop where
  carrier : s.carrier = lines n.carrier
  inStep : ∃ w, Assembly.InStep v.roster v.base s s.carrier w
  starry : s.carrier.Starry v.roster.size
  missing : ∀ d ∈ v.missing, (∃ result, (s.rank d).stage = .gone result) ∧ (s.rank d).entered = []
  tracks : ∀ r, v.Present r → v.Tracks r (s.rank r) (n.hand r)

variable {C : Carrier} {lines : C.State → Lines} {n n' : Crew C α} {t' : C.State} {h' : Hand α}

theorem Aligned.attends (h : v.Aligned lines n s) : v.Attends s :=
  ⟨h.missing, fun r hr => (h.tracks r hr).attends⟩

theorem Aligned.act (h : v.Aligned lines n s) (hcarrier : lines t' = lines n.carrier)
    (htracks : v.Tracks r (s.rank r) h') : v.Aligned lines (n.put r t' h') s where
  carrier := h.carrier.trans hcarrier.symm
  inStep := h.inStep
  starry := h.starry
  missing := h.missing
  tracks q hq := by
    by_cases hqr : q = r
    · subst hqr
      rw [Crew.put_hand]
      exact htracks
    · rw [Crew.put_hand_ne hqr]
      exact h.tracks q hq

theorem Aligned.put (h : v.Aligned lines n s) (hr : v.Present r) {l' : Lines} {x' : Rank Silent Unit}
    (hact : Assembly.Act v.roster r s.carrier (s.rank r) l' x') (hcarrier : l' = lines t')
    (htracks : v.Tracks r x' h') : v.Aligned lines (n.put r t' h') (s.put r l' x') := by
  have hstep : Assembly.Advance v.roster s (s.put r l' x') := ⟨r, hr.1, l', x', hact, rfl⟩
  have hC := Lines.faithful v.roster.size
  obtain ⟨w, hw⟩ := h.inStep
  refine ⟨hcarrier, hw.advance hC hstep, hw.starry hC hstep h.starry,
    (h.attends.put hr htracks.attends).missing, fun q hq => ?_⟩
  by_cases hqr : q = r
  · subst hqr
    rw [Crew.put_hand, Assembly.put_rank]
    exact htracks
  · rw [Crew.put_hand_ne hqr, Assembly.put_rank_ne hqr]
    exact h.tracks q hq

theorem Aligned.quiet (h : v.Aligned lines n s) (hr : v.Present r) {x' : Rank Silent Unit}
    (hact : Assembly.Act v.roster r s.carrier (s.rank r) s.carrier x')
    (htracks : v.Tracks r x' (n.hand r)) : v.Aligned lines n (s.put r s.carrier x') := by
  have hput := h.put hr hact h.carrier htracks
  rwa [Crew.put, Function.update_eq_self] at hput

end Charter

end Lagmeter
