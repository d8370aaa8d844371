import Lagmeter.Proofs.Crew.Mirror

/-!
# Crews in step

Every step of a crew keeps it aligned with an assembly, whatever order the ranks take.
-/

namespace Lagmeter.Charter

open Exchange

variable {α : Type} {v : Charter α} {script : List (Nat → Request)} {C : Carrier}
  {lines : C.State → Lines} {n n' : Crew C α}
  {s : Assembly (Lines.carrier v.roster.size) Silent Unit} {r : Nat}

theorem aligned_start {t : C.State} {talk : Nat → Dialogue Seat α}
    (hl : (lines t).Calm v.roster.size v.missing)
    (hgoes : ∀ r, v.Present r → v.Goes r [] (v.course r) (talk r)) :
    v.Aligned lines (Crew.start t talk)
      (.startWithout v.missing (lines t) (fun r => .inTurn (v.offers r (v.course r))) v.base) where
  carrier := rfl
  inStep := ⟨_, Assembly.inStep_startWithout hl⟩
  starry := hl.starry
  missing d hd := by simp [Assembly.startWithout, hd]
  tracks r hr := by
    refine .between [] (v.course r) (talk r) ⟨rfl, rfl, rfl, hgoes r hr, ?_, rfl⟩
    simp [Assembly.startWithout, hr.2]

/-! ## Steps of the assembly -/

theorem Aligned.counts_of_free (h : v.Aligned lines n s) (hr : v.Present r) {past : Course}
    {plan : Plan Silent Unit} (hstage : (s.rank r).stage = .free plan)
    (hentered : (s.rank r).entered = v.offers r past) :
    (s.rank r).results.length = past.asks.length ∧
      (s.rank r).sequence = v.base + past.asks.length := by
  obtain ⟨w, hw⟩ := h.inStep
  have hat := hw.standing r hr.1
  have hlength : (s.rank r).results.length = past.asks.length := by
    rw [← (hat.of_free hstage).2, hentered, offers, List.length_map]
  exact ⟨hlength, hlength ▸ hat.sequence⟩

theorem Aligned.counts_of_within (h : v.Aligned lines n s) (hr : v.Present r) {past todo : Course}
    {ask : Ask} {talk : Dialogue Link (Except GroupError Payload × Nat)}
    {next : Except GroupError Payload × Nat → Dialogue Seat α}
    (ht : v.Within r (s.rank r) (n.hand r) past todo ask talk next) :
    (s.rank r).results.length = past.asks.length := by
  obtain ⟨w, hw⟩ := h.inStep
  obtain ⟨_, entered, _, hentered, hlength, _⟩ := (hw.standing r hr.1).of_busy ht.stage
  rw [ht.entered, offers_append] at hentered
  rw [← hlength, ← List.append_inj_left' hentered rfl, offers, List.length_map]

theorem Aligned.enter (h : v.Aligned lines n s) (hr : v.Present r) {past todo : Course} {ask : Ask}
    {next : Except GroupError Payload × Nat → Dialogue Seat α}
    (ht : v.Between r (s.rank r) (n.hand r) past (.ask ask :: todo)
      ((Seat.link ((v.offer r ask).dialogue (v.roster.member r) (v.base + past.asks.length))).bind next))
    (hgoes : ∀ x, v.Met r ask x →
      v.Goes r (past ++ [.ask ask]) todo (next (x, v.base + past.asks.length + 1))) :
    ∃ s', v.Aligned lines n s' ∧ v.Within r (s'.rank r) (n.hand r) past todo ask
      ((v.offer r ask).dialogue (v.roster.member r) (v.base + past.asks.length)) next := by
  obtain ⟨-, hsequence⟩ := h.counts_of_free hr ht.stage ht.entered
  have hstage : (s.rank r).stage = .free (.ask (PlanCall.exchange (v.offer r ask)) fun _ =>
      Plan.inTurn (v.offers r todo)) := ht.stage
  have hact := Assembly.Act.enter (g := v.roster) (r := r) (t := s.carrier) _ _ hstage
  rw [hsequence] at hact
  have hentered : (s.rank r).entered ++ [v.offer r ask] = v.offers r (past ++ [.ask ask]) := by
    rw [ht.entered, offers_append]
    rfl
  refine ⟨_, h.quiet hr hact (.within past todo ask _ next
    ⟨ht.course, ht.doing, ht.deeds, hgoes, rfl, hentered⟩), ?_⟩
  rw [Assembly.put_rank]
  exact ⟨ht.course, ht.doing, ht.deeds, hgoes, rfl, hentered⟩

theorem Aligned.conclude (hv : v.Concerted script) (h : v.Aligned lines n s) (hr : v.Present r)
    {past todo : Course} {ask : Ask} {y : Except GroupError Payload × Nat}
    {next : Except GroupError Payload × Nat → Dialogue Seat α}
    (ht : v.Within r (s.rank r) (n.hand r) past todo ask (.done y) next) :
    ∃ s', Assembly.Advance v.roster s s' ∧ v.Aligned lines n s' := by
  have hact := Assembly.Act.conclude (g := v.roster) (r := r) (t := s.carrier) _ y.1 y.2 _ ht.stage
  have hstep : Assembly.Advance v.roster s _ := ⟨r, hr.1, _, _, hact, rfl⟩
  refine ⟨_, hstep, h.quiet hr hact ?_⟩
  obtain ⟨w, hw⟩ := h.inStep
  obtain ⟨w', hw'⟩ := hw.advance (Lines.faithful _) hstep
  obtain ⟨_, _, _, _, _, htalk⟩ := (hw.standing r hr.1).of_busy ht.stage
  obtain ⟨x, rfl, rfl⟩ := Place.dialogue_done htalk.symm
  have hresults := h.counts_of_within hr ht
  -- This is the result of the request that comes next on the course.
  have hmet : v.Met r ask x := by
    refine hv.met (i := past.asks.length) (h.attends.put hr ⟨fun _ hgone => (by cases hgone), ?_⟩) hw' hr ?_ ?_
    · exact (h.attends.present r hr).2
    · rw [Assembly.put_rank, ← hresults, List.getElem?_concat_length]
    · simp [ht.course]
  refine .between (past ++ [.ask ask]) todo _
    ⟨by rw [ht.course, List.append_assoc]; rfl, ht.doing, by simp [ht.deeds], ?_, rfl, ht.entered⟩
  rw [hresults]
  exact ht.goes x hmet

/-- No rank has yet to conclude an exchange. -/
def Settled (v : Charter α) (s : Assembly (Lines.carrier v.roster.size) Silent Unit) : Prop :=
  ∀ r, v.Present r → ∀ ρ y next, (s.rank r).stage ≠ .busy ρ (.done y) next

theorem Aligned.settle (hv : v.Concerted script) (h : v.Aligned lines n s) :
    ∃ s', v.Aligned lines n s' ∧ v.Settled s' := by
  -- Every conclusion is a step of the assembly, so there are only finitely many of them.
  induction s using Assembly.wellFounded_advance (g := v.roster) |>.induction with
  | _ s ih =>
  by_cases hsettled : v.Settled s
  · exact ⟨s, h, hsettled⟩
  simp only [Settled, not_forall, not_not] at hsettled
  obtain ⟨r, hr, ρ, y, next, hstage⟩ := hsettled
  cases h.tracks r hr with
  | between past todo d ht => cases hstage.symm.trans ht.stage
  | working past todo call next ht => cases hstage.symm.trans ht.stage
  | within past todo ask talk next ht =>
    cases hstage.symm.trans ht.stage
    obtain ⟨s', hstep, h'⟩ := h.conclude hv hr ht
    exact ih s' hstep h'

/-! ## Steps of the crew -/

theorem Aligned.talk (hC : C.Faithful v.roster.size lines) (h : v.Aligned lines n s)
    (hr : v.Present r) {past todo : Course} {ask : Ask} {call : LinkCall}
    {go : call.Answer → Dialogue Link (Except GroupError Payload × Nat)}
    {next : Except GroupError Payload × Nat → Dialogue Seat α}
    (ht : v.Within r (s.rank r) (n.hand r) past todo ask (.ask call go) next) {a : call.Answer}
    {t' : C.State} (ha : C.Answers n.carrier r call a t') :
    ∃ s', v.Aligned lines (n.put r t' { n.hand r with
      doing := .talking ((Seat.link (go a)).bind next) }) s' := by
  have hallows : s.carrier.Allows v.roster.size r call a (lines t') := h.carrier ▸ hC.sound hr.1 ha
  have hact := Assembly.Act.talk (g := v.roster) (C := Lines.carrier v.roster.size) _ call go _ a _
    ht.stage hallows
  exact ⟨_, h.put hr hact rfl (.within past todo ask (go a) next
    ⟨ht.course, rfl, ht.deeds, ht.goes, rfl, ht.entered⟩)⟩

variable {t' : C.State} {h' : Hand α}

theorem Aligned.act_within (hC : C.Faithful v.roster.size lines) (h : v.Aligned lines n s)
    (hr : v.Present r) {past todo : Course} {ask : Ask} {call : LinkCall}
    {go : call.Answer → Dialogue Link (Except GroupError Payload × Nat)}
    {next : Except GroupError Payload × Nat → Dialogue Seat α}
    (ht : v.Within r (s.rank r) (n.hand r) past todo ask (.ask call go) next)
    (hact : Crew.Act (v.conduct r) r n.carrier (n.hand r) t' h') :
    ∃ s', v.Aligned lines (n.put r t' h') s' := by
  have hdoing : (n.hand r).doing = .talking (.ask (SeatCall.link call) fun a =>
      (Seat.link (go a)).bind next) := ht.doing
  cases hact with
  | talk _ _ a _ hd ha =>
    cases hd.symm.trans hdoing
    exact h.talk hC hr ht ha
  | begin _ _ a hd ha =>
    cases hd.symm.trans hdoing
    cases ha
  | finish _ _ a hd ha => cases hd.symm.trans hdoing

theorem Aligned.act_between (hC : C.Faithful v.roster.size lines) (h : v.Aligned lines n s)
    (hr : v.Present r) {past todo : Course} {d : Dialogue Seat α}
    (ht : v.Between r (s.rank r) (n.hand r) past todo d)
    (hact : Crew.Act (v.conduct r) r n.carrier (n.hand r) t' h') :
    ∃ s', v.Aligned lines (n.put r t' h') s' := by
  have hgoes := ht.goes
  unfold Charter.Goes at hgoes
  cases hgoes with
  | done _ a ha =>
    cases hact with
    | talk _ _ _ _ hd _ => cases hd.symm.trans ht.doing
    | begin _ _ _ hd _ => cases hd.symm.trans ht.doing
    | finish _ _ _ hd _ => cases hd.symm.trans ht.doing
  | log e next _ _ hnext =>
    cases hact with
    | talk _ _ a _ hd ha =>
      cases hd.symm.trans ht.doing
      have hsame : lines t' = lines n.carrier := by
        have hallows := hC.sound hr.1 ha
        generalize lines t' = l' at hallows
        cases hallows
        rfl
      exact ⟨s, h.act hsame (.between past todo _
        ⟨ht.course, rfl, ht.deeds, hnext, ht.stage, ht.entered⟩)⟩
    | begin _ _ _ hd ha =>
      cases hd.symm.trans ht.doing
      cases ha
    | finish _ _ _ hd _ => cases hd.symm.trans ht.doing
  | call call a next todo _ ha hnext =>
    cases hact with
    | talk _ _ _ _ hd _ =>
      cases hd.symm.trans ht.doing
      cases ha
    | begin _ _ _ hd _ =>
      cases hd.symm.trans ht.doing
      exact ⟨s, h.act rfl (.working past todo call next
        ⟨ht.course, rfl, by simp [ht.deeds], ⟨a, ha, hnext⟩, ht.stage, ht.entered⟩)⟩
    | finish _ _ _ hd _ => cases hd.symm.trans ht.doing
  | ask ask next todo _ hnext =>
    have hnext' : ∀ x, v.Met r ask x →
        v.Goes r (past ++ [.ask ask]) todo (next (x, v.base + past.asks.length + 1)) := by
      simpa [Charter.Goes, Met, Nat.add_assoc] using hnext
    -- The crew makes the first call of an exchange, which the assembly has to enter before.
    obtain ⟨s', h', hwithin⟩ := h.enter hr ht hnext'
    exact h'.act_within hC hr hwithin hact

theorem Aligned.act_working (h : v.Aligned lines n s) {past todo : Course} {call : SeatCall}
    {next : call.Answer → Dialogue Seat α}
    (ht : v.Working r (s.rank r) (n.hand r) past todo call next)
    (hact : Crew.Act (v.conduct r) r n.carrier (n.hand r) t' h') :
    ∃ s', v.Aligned lines (n.put r t' h') s' := by
  obtain ⟨a, ha, hnext⟩ := ht.goes
  cases hact with
  | talk _ _ _ _ hd _ => cases hd.symm.trans ht.doing
  | begin _ _ _ hd _ => cases hd.symm.trans ht.doing
  | finish _ _ b hd hb =>
    cases hd.symm.trans ht.doing
    obtain rfl := Option.some.inj (ha.symm.trans hb)
    refine ⟨s, h.act rfl (.between (past ++ [.call call]) todo (next a) ?_)⟩
    exact ⟨by simp [ht.course], rfl, by simp [ht.deeds, deedsOf], by simpa [Charter.Goes] using hnext,
      ht.stage, by simp [ht.entered, offers]⟩

/-- Every step of the crew has its like in the assembly. -/
theorem Aligned.step (hC : C.Faithful v.roster.size lines) (h : v.Aligned lines n s)
    (hs : v.Settled s) (hstep : n.Step v.roster.size v.missing v.conduct n') :
    ∃ s', v.Aligned lines n' s' := by
  obtain ⟨r, hr, hmissing, t', h', hact, rfl⟩ := hstep
  cases h.tracks r ⟨hr, hmissing⟩ with
  | between past todo d ht => exact h.act_between hC ⟨hr, hmissing⟩ ht hact
  | working past todo call next ht => exact h.act_working ht hact
  | within past todo ask talk next ht =>
    cases talk with
    | ask call go => exact h.act_within hC ⟨hr, hmissing⟩ ht hact
    | done y => exact absurd ht.stage (hs r ⟨hr, hmissing⟩ _ y _)

theorem aligned_of_reaches (hC : C.Faithful v.roster.size lines) (hv : v.Concerted script)
    {t : C.State} {talk : Nat → Dialogue Seat α} (hl : (lines t).Calm v.roster.size v.missing)
    (hgoes : ∀ r, v.Present r → v.Goes r [] (v.course r) (talk r))
    (hn : (Crew.start t talk).Reaches v.roster.size v.missing v.conduct n) :
    ∃ s, v.Aligned lines n s ∧ v.Settled s := by
  induction hn with
  | refl => exact (aligned_start hl hgoes).settle hv
  | tail _ hstep ih =>
    obtain ⟨s, h, hs⟩ := ih
    obtain ⟨s', h'⟩ := h.step hC hs hstep
    exact h'.settle hv

end Lagmeter.Charter
