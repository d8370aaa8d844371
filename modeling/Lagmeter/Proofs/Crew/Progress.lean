import Lagmeter.Proofs.Crew.Lockstep

/-!
# Crews come to their ends

As long as a rank that is there is not done, some rank can take a step. No rank gives its link up,
so that the ranks have to make equally many requests: one that is done owes the others nothing.
Exchanges put the calls of the nodes in order, also of nodes of different ranks.
-/

namespace Lagmeter.Charter

open Exchange

variable {α : Type} {v : Charter α} {script : List (Nat → Request)} {C : Carrier}
  {lines : C.State → Lines} {n : Crew C α}
  {s : Assembly (Lines.carrier v.roster.size) Silent Unit} {w : Nat → Station} {r p q : Nat} {a : α}

/-! ## How far a rank is -/

theorem Concerted.length_offers (hv : v.Concerted script) (hr : v.Present r) :
    (v.offers r (v.course r)).length = script.length := by
  rw [offers, List.length_map, hv.asks r hr, List.length_map]

theorem Aligned.results_le (hv : v.Concerted script) (h : v.Aligned lines n s)
    (hw : Assembly.InStep v.roster v.base s s.carrier w) (hr : v.Present r) :
    (s.rank r).results.length ≤ script.length ∧
      ∀ place, w r = .within place → (s.rank r).results.length < script.length := by
  have hentered := (h.attends.present r hr).2.length_le
  rw [hv.length_offers hr] at hentered
  have ⟨hle, hwithin⟩ := hw.results_le_entered hr.1
  refine ⟨Nat.le_trans hle hentered, fun place hplace => ?_⟩
  have := hwithin place hplace
  omega

theorem Aligned.done (h : v.Aligned lines n s) (hs : v.Settled s) (hr : v.Present r)
    (hdone : n.Done r a) : (n.hand r).deeds = deedsOf (v.course r).calls ∧
      v.post r (v.base + (v.course r).asks.length) a ∧
      ∃ plan, (s.rank r).stage = .free plan ∧ (s.rank r).entered = v.offers r (v.course r) := by
  cases h.tracks r hr with
  | between past todo d ht =>
    cases hdone.symm.trans ht.doing
    have hgoes := ht.goes
    unfold Charter.Goes at hgoes
    generalize hd : Dialogue.done a = d at hgoes
    cases hgoes with
    | done _ _ hpost =>
      cases hd
      have hcourse : v.course r = past := by rw [ht.course, List.append_nil]
      rw [hcourse]
      exact ⟨ht.deeds, hpost, _, ht.stage, ht.entered⟩
    | log | call | ask => cases hd
  | working past todo call next ht => cases hdone.symm.trans ht.doing
  | within past todo ask talk next ht =>
    cases talk with
    | ask call go => cases hdone.symm.trans ht.doing
    | done y => exact absurd ht.stage (hs r hr _ y _)

theorem Aligned.counts_of_done (hv : v.Concerted script) (h : v.Aligned lines n s)
    (hs : v.Settled s) (hw : Assembly.InStep v.roster v.base s s.carrier w) (hr : v.Present r)
    (hdone : n.Done r a) : w r = .between ∧ (s.rank r).results.length = script.length := by
  obtain ⟨-, -, plan, hstage, hentered⟩ := h.done hs hr hdone
  have ⟨hbetween, hcount⟩ := (hw.standing r hr.1).of_free hstage
  exact ⟨hbetween, by rw [← hcount, hentered, hv.length_offers hr]⟩

/-! ## Nobody waits for ever -/

/-- A rank can take a step, unless it is done or waits for a rank that is there. -/
theorem Aligned.step_or_waits (hC : C.Faithful v.roster.size lines) (h : v.Aligned lines n s)
    (hs : v.Settled s) (hw : Assembly.InStep v.roster v.base s s.carrier w) (hr : v.Present r) :
    (∃ n', n.Step v.roster.size v.missing v.conduct n') ∨ (∃ a, n.Done r a) ∨
      ∃ peer < v.roster.size, s.carrier.queue peer r = [] ∧ w peer ≠ .gone ∧
        (w r = .within .awaiting ∧ peer = 0 ∨
          ∃ received rest, w r = .within (.collecting received peer rest)) := by
  have hact {t' : C.State} {h' : Hand α}
      (hact : Crew.Act (v.conduct r) r n.carrier (n.hand r) t' h') :
      ∃ n', n.Step v.roster.size v.missing v.conduct n' := ⟨_, r, hr.1, hr.2, t', h', hact, rfl⟩
  have htell {e : Event} {go : Unit → Dialogue Seat α}
      (hd : (n.hand r).doing = .talking (.ask (SeatCall.link (.log e)) go)) :
      ∃ n', n.Step v.roster.size v.missing v.conduct n' := by
    obtain ⟨b, t', ha⟩ := hC.live (t := n.carrier) hr.1 (.told e)
    exact hact (.talk (.log e) go b t' hd ha)
  cases h.tracks r hr with
  | between past todo d ht =>
    have hgoes := ht.goes
    unfold Charter.Goes at hgoes
    cases hgoes with
    | done _ a _ => exact .inr (.inl ⟨a, ht.doing⟩)
    | log e next _ _ _ => exact .inl (htell ht.doing)
    | call call a next _ _ ha _ => exact .inl (hact (.begin call next a ht.doing ha))
    | ask ask next _ _ _ => exact .inl (htell ht.doing)
  | working past todo call next ht =>
    obtain ⟨a, ha, -⟩ := ht.goes
    exact .inl (hact (.finish call next a ht.doing ha))
  | within past todo ask talk next ht =>
    cases talk with
    | done y => exact absurd ht.stage (hs r hr _ y _)
    | ask call go =>
      rcases s.carrier.allows_or_waits v.roster.size r call with
        ⟨b, l', hallows⟩ | ⟨peer, rfl, hpeer, hempty, hopen⟩
      · obtain ⟨b, t', ha⟩ := hC.live (t := n.carrier) hr.1 (h.carrier ▸ hallows)
        exact .inl (hact (.talk call _ b t' ht.doing ha))
      · refine .inr (.inr ⟨peer, hpeer, hempty, (hw.isOpen peer hpeer).mp hopen, ?_⟩)
        obtain ⟨place, _, hplace, -, -, htalk⟩ := (hw.standing r hr.1).of_busy ht.stage
        obtain ⟨_, hmove, -⟩ := Place.dialogue_ask htalk.symm (.error (.disconnected peer))
        rw [hplace]
        rcases hmove.of_receive with ⟨rfl, rfl⟩ | ⟨received, rest, rfl⟩
        · exact .inl ⟨rfl, rfl⟩
        · exact .inr ⟨received, rest, rfl⟩

theorem Aligned.step_of_collecting (hC : C.Faithful v.roster.size lines) (hv : v.Concerted script)
    (h : v.Aligned lines n s) (hs : v.Settled s)
    (hw : Assembly.InStep v.roster v.base s s.carrier w) (hroot : v.Present 0)
    {received : List (Except GroupError Payload)} {peer : Nat} {rest : List Nat}
    (hw0 : w 0 = .within (.collecting received peer rest)) (hpeer : v.Present peer)
    (hup : s.carrier.queue peer 0 = []) : ∃ n', n.Step v.roster.size v.missing v.conduct n' := by
  obtain ⟨-, -, hrest⟩ := hw.placed 0 hroot.1 _ hw0
  have hpeer0 : peer ≠ 0 := by
    obtain ⟨rfl, -⟩ := next_peer hrest
    omega
  rcases h.step_or_waits hC hs hw hpeer with hstep | ⟨a, hdone⟩ | ⟨_, _, hdown, _, hwait⟩
  · exact hstep
  · -- The root is in an exchange that the peer has been through.
    obtain ⟨hwp, hcount⟩ := h.counts_of_done hv hs hw hpeer hdone
    have hlt := (h.results_le hv hw hroot).2 _ hw0
    have hcoupled := hw.coupled peer hpeer.1 hpeer0
    rw [Assembly.Coupled, hw0, hwp, hup] at hcoupled
    obtain ⟨f, hf, -⟩ := hcoupled.up_some rfl (by
      simp only [Station.rootCount, Place.rootCount, beyond, Station.peerCount,
        List.mem_cons_self, if_true]
      omega)
    cases hf
  · rcases hwait with ⟨hwp, rfl⟩ | ⟨received', rest', hwp⟩
    · exact (hw.not_both_wait hpeer.1 hpeer0 hw0 hwp hup hdown).elim
    · exact absurd (hw.placed peer hpeer.1 _ hwp).1 hpeer0

theorem Aligned.progress (hC : C.Faithful v.roster.size lines) (hv : v.Concerted script)
    (h : v.Aligned lines n s) (hs : v.Settled s) :
    (∃ n', n.Step v.roster.size v.missing v.conduct n') ∨ ∀ r, v.Present r → ∃ a, n.Done r a := by
  obtain ⟨w, hw⟩ := h.inStep
  refine or_iff_not_imp_right.mpr fun hall => ?_
  simp only [not_forall] at hall
  obtain ⟨r, hr, hnot⟩ := hall
  have hpresent {q : Nat} (hq : q < v.roster.size) (hwq : w q ≠ .gone) : v.Present q :=
    ⟨hq, (h.attends.present_iff hw hq).mp hwq⟩
  rcases h.step_or_waits hC hs hw hr with hstep | hdone | ⟨peer, hpeer, hempty, hhere, hwait⟩
  · exact hstep
  · exact absurd hdone hnot
  rcases hwait with ⟨hwr, rfl⟩ | ⟨received, rest, hwr⟩
  · have hr0 : r ≠ 0 := hw.placed r hr.1 _ hwr
    have hroot := hpresent hpeer hhere
    rcases h.step_or_waits hC hs hw hroot with hstep | ⟨a, hdone⟩ | ⟨p, hp, hup, hwp, hwait⟩
    · exact hstep
    · -- The root has answered all exchanges, also the one in which the peer waits.
      obtain ⟨hw0, hcount⟩ := h.counts_of_done hv hs hw hroot hdone
      have hlt := (h.results_le hv hw hr).2 _ hwr
      have hcoupled := hw.coupled r hr.1 hr0
      rw [Assembly.Coupled, hw0, hwr, hempty] at hcoupled
      have howed : (s.rank 0).results.length ≤ (s.rank r).results.length :=
        hcoupled.answered_le_of_empty rfl
      omega
    · rcases hwait with ⟨hw0, -⟩ | ⟨received, rest, hw0⟩
      · exact absurd rfl (hw.placed 0 hroot.1 _ hw0)
      · exact h.step_of_collecting hC hv hs hw hroot hw0 (hpresent hp hwp) hup
  · obtain ⟨rfl, -⟩ := hw.placed r hr.1 _ hwr
    exact h.step_of_collecting hC hv hs hw hr hwr (hpresent hpeer hhere) hempty

theorem Aligned.fresh (hv : v.Concerted script) (h : v.Aligned lines n s) (hs : v.Settled s)
    (hwhole : v.missing = ∅) (hdone : ∀ r < v.roster.size, ∃ a, n.Done r a) :
    (lines n.carrier).Fresh v.roster.size := by
  obtain ⟨w, hw⟩ := h.inStep
  have hcounts {r : Nat} (hr : r < v.roster.size) :
      w r = .between ∧ (s.rank r).results.length = script.length := by
    obtain ⟨a, ha⟩ := hdone r hr
    exact h.counts_of_done hv hs hw ⟨hr, by simp [hwhole]⟩ ha
  have hpair {p : Nat} (hp : p < v.roster.size) (hp0 : p ≠ 0) :
      s.carrier.queue p 0 = [] ∧ s.carrier.queue 0 p = [] := by
    have hcoupled := hw.coupled p hp hp0
    rw [Assembly.Coupled, (hcounts hp).1, (hcounts (by omega)).1, (hcounts hp).2,
      (hcounts (by omega)).2] at hcoupled
    exact ⟨hcoupled.up_nil rfl (Nat.le_refl _), hcoupled.down_nil fun _ => Nat.le_refl _⟩
  rw [← h.carrier]
  refine fun a ha => ⟨(hw.isOpen a ha).mpr (by simp [(hcounts ha).1]), fun b hb => ?_⟩
  by_cases hab : a = 0 ↔ b = 0
  · exact h.starry a ha b hb hab
  · by_cases ha0 : a = 0
    · subst ha0
      exact (hpair hb (by simpa using hab)).2
    · obtain rfl : b = 0 := by simpa [ha0] using hab
      exact (hpair ha ha0).1

/-! ## The order of deeds -/

theorem prefix_deedsOf {c d : Course} : deedsOf c.calls <+: deedsOf (c ++ d : Course).calls := by
  rw [Course.calls_append, deedsOf_append]
  exact List.prefix_append _ _

theorem Aligned.prefix_deeds (h : v.Aligned lines n s) (hr : v.Present r) :
    (n.hand r).deeds <+: deedsOf (v.course r).calls := by
  cases h.tracks r hr with
  | between past todo d ht =>
    rw [ht.deeds, ht.course]
    exact prefix_deedsOf
  | working past todo call next ht =>
    rw [ht.deeds, ht.course, Course.calls_append, deedsOf_append]
    exact (List.prefix_append_right_inj _).mpr ⟨.ended call :: deedsOf todo.calls, rfl⟩
  | within past todo ask talk next ht =>
    rw [ht.deeds, ht.course]
    exact prefix_deedsOf

theorem Aligned.begun (h : v.Aligned lines n s) (hr : v.Present r) : ∃ past todo : Course,
    v.course r = past ++ todo ∧ past.asks.length = (s.rank r).results.length ∧
      ∀ call, .began call ∈ (n.hand r).deeds → call ∈ past.calls := by
  cases h.tracks r hr with
  | between past todo d ht =>
    refine ⟨past, todo, ht.course, (h.counts_of_free hr ht.stage ht.entered).1.symm, fun call hcall => ?_⟩
    rw [ht.deeds] at hcall
    exact began_mem_deedsOf.mp hcall
  | working past todo call next ht =>
    refine ⟨past ++ [.call call], todo, by rw [ht.course, List.append_assoc]; rfl, ?_, fun c hc => ?_⟩
    · rw [Course.asks_append, (h.counts_of_free hr ht.stage ht.entered).1]
      exact congrArg List.length (List.append_nil _)
    · rw [ht.deeds, List.mem_append, began_mem_deedsOf] at hc
      simpa using hc
  | within past todo ask talk next ht =>
    refine ⟨past, _, ht.course, (h.counts_of_within hr ht).symm, fun call hcall => ?_⟩
    rw [ht.deeds] at hcall
    exact began_mem_deedsOf.mp hcall

theorem Aligned.ended (h : v.Aligned lines n s) (hr : v.Present r) : ∃ past todo : Course,
    v.course r = past ++ todo ∧ past.asks.length = (s.rank r).entered.length ∧
      ∀ call ∈ past.calls, .ended call ∈ (n.hand r).deeds := by
  cases h.tracks r hr with
  | between past todo d ht =>
    refine ⟨past, todo, ht.course, by rw [ht.entered, offers, List.length_map], fun call hcall => ?_⟩
    rw [ht.deeds]
    exact ended_mem_deedsOf.mpr hcall
  | working past todo call next ht =>
    refine ⟨past, _, ht.course, by rw [ht.entered, offers, List.length_map], fun c hc => ?_⟩
    rw [ht.deeds]
    exact List.mem_append_left _ (ended_mem_deedsOf.mpr hc)
  | within past todo ask talk next ht =>
    refine ⟨past ++ [.ask ask], todo, by rw [ht.course, List.append_assoc]; rfl,
      by rw [ht.entered, offers, List.length_map], fun call hcall => ?_⟩
    rw [ht.deeds]
    exact ended_mem_deedsOf.mpr (by simpa using hcall)

/-- An exchange separates the calls before it from those after it, on any two ranks. -/
theorem Aligned.ended_of_began (h : v.Aligned lines n s) (hroot : v.Present 0) (hp : v.Present p)
    (hq : v.Present q) {early late before after : Course} (hcp : v.course p = early ++ late)
    (hcq : v.course q = before ++ after) (hcount : before.asks.length < early.asks.length)
    {call : SeatCall} (hnew : call ∉ early.calls) (hbegan : .began call ∈ (n.hand p).deeds) :
    ∀ call' ∈ before.calls, .ended call' ∈ (n.hand q).deeds := by
  obtain ⟨w, hw⟩ := h.inStep
  have hhere {r : Nat} (hr : v.Present r) : w r ≠ .gone := (h.attends.present_iff hw hr.1).mpr hr.2
  obtain ⟨past, todo, hcourse, hresults, hcalls⟩ := h.begun hp
  obtain ⟨past', todo', hcourse', hentered, hcalls'⟩ := h.ended hq
  -- Rank `p` is through all exchanges of `early`, so rank `q` has come to the one after `before`.
  have hthrough : before.asks.length < (s.rank p).results.length := by
    rcases List.append_eq_append_iff.mp (hcourse.symm.trans hcp) with ⟨more, hmore, -⟩ | ⟨more, hmore, -⟩
    · refine absurd ?_ hnew
      rw [hmore, Course.calls_append]
      exact List.mem_append_left _ (hcalls call hbegan)
    · rw [← hresults, hmore, Course.asks_append, List.length_append]
      omega
  have hcame := hw.entered_of_result hp.1 hq.1 (hhere hroot) (hhere hp) (hhere hq) hthrough
  intro call' hcall'
  refine hcalls' call' ?_
  rcases List.append_eq_append_iff.mp (hcourse'.symm.trans hcq) with ⟨more, hmore, -⟩ | ⟨more, hmore, -⟩
  · rw [hmore, Course.asks_append, List.length_append, hentered] at hcame
    omega
  · rw [hmore, Course.calls_append]
    exact List.mem_append_left _ hcall'

end Lagmeter.Charter
