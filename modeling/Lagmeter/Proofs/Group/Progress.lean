import Lagmeter.Proofs.Group.Lockstep

/-!
# Progress

Every step keeps the ranks in step, and as long as a rank is there, some rank can take one.
-/

namespace Lagmeter.Assembly

open Exchange

variable {C : Carrier} {J : Interface} {α : Type} {g : Roster} {base r : Nat}
  {s s' : Assembly C J α} {l l' : Lines} {w : Nat → Station} {t' : C.State} {x' : Rank J α}
  {w' : Station} {place place' : Place} {ρ : Offer}

/-! ## Every step -/

theorem InStep.moveDown (h : InStep g base s l w) (hsize : 0 < g.size)
    (hreach : Reaches g s (s.put 0 t' x')) (hwr : w 0 = .within place)
    (hat : x'.At (g.member 0) base (.within place')) (hresults : x'.results = (s.rank 0).results)
    (hρ : s.offers (s.rank 0).results.length 0 = some ρ) {call : LinkCall} {a : call.Answer}
    (hmove : Moves (g.member 0) (base + (s.rank 0).results.length + 1) ρ place call a place')
    (hallows : l.Allows g.size 0 call a l') :
    InStep g base (s.put 0 t' x') l' (Function.update w 0 (.within place')) := by
  have hplaced := h.placed 0 hsize place hwr
  cases hmove with
  | lead hroot =>
    cases hallows
    refine h.talkAlone hsize hreach hwr hat hresults (fun p hp hp0 => ?_)
      (placed_collectFrom hsize nofun hρ (Nat.zero_le _) rfl)
    show (Place.collectFrom g.size ρ [] (peers g.size)).rootCount _ _ = _
    rw [rootCount_collectFrom (mem_peers.mpr ⟨by omega, hp⟩), beyond_peers hp hp0]
    rfl
  | follow hroot => exact absurd rfl (Roster.ne_zero_of_isRoot hroot)
  | contribute => exact absurd rfl hplaced
  | unheard e => exact absurd rfl hplaced
  | reply a => exact absurd rfl hplaced
  | collect received peer rest a =>
    exact h.collect hsize hreach hwr hat hresults hρ rfl rfl hallows
  | answer replies peer payload rest =>
    obtain ⟨-, hagreed, hsuffix⟩ := hplaced
    obtain ⟨hpeer, hpeer0, hlast, hrest, hreply⟩ := next_answered hagreed.length_eq hsuffix
    exact h.answered hsize hreach hwr hat hresults hpeer hpeer0 hlast (fun p => rfl)
      (fun p => rootCount_answerTo _ _) (placed_answerTo hsize hagreed hrest)
      ⟨rfl, ⟨ρ, hρ, rfl⟩, .inl ⟨replies, hagreed, hreply⟩⟩ hallows
  | unanswered replies peer payload rest e => exact absurd hallows (h.not_unanswered hsize hwr)
  | abandon e =>
    cases hallows
    refine h.talkAlone hsize hreach hwr hat hresults (fun p hp hp0 => ?_)
      (placed_tellTo hplaced.2 List.suffix_rfl)
    show (Place.tellTo e (peers g.size)).rootCount _ _ = _
    rw [rootCount_tellTo, beyond_peers hp hp0]
    rfl
  | tell e peer rest =>
    obtain ⟨-, hdoomed, hsuffix⟩ := hplaced
    obtain ⟨hpeer, hpeer0, hlast, hrest⟩ := next_told hsuffix
    exact h.answered hsize hreach hwr hat hresults hpeer hpeer0 hlast (fun p => rfl)
      (fun p => rootCount_tellTo _ _) (placed_tellTo hdoomed hrest)
      ⟨rfl, ⟨ρ, hρ, rfl⟩, .inr ⟨hdoomed, _, rfl⟩⟩ hallows
  | untold e cause peer rest event =>
    obtain ⟨-, hdoomed, hsuffix⟩ := hplaced
    obtain ⟨hpeer, hpeer0, hlast, hrest⟩ := next_told hsuffix
    exact h.answered hsize hreach hwr hat hresults hpeer hpeer0 hlast (fun p => rfl)
      (fun p => rfl) ⟨rfl, hdoomed, hrest⟩ ⟨rfl, ⟨ρ, hρ, rfl⟩, .inr ⟨hdoomed, _, rfl⟩⟩ hallows
  | note e event rest =>
    cases hallows
    exact h.talkAlone hsize hreach hwr hat hresults (fun p _ _ => rootCount_tellTo _ _)
      (placed_tellTo hplaced.2.1 hplaced.2.2)

theorem InStep.moveUp (h : InStep g base s l w) (hr : r < g.size) (hr0 : r ≠ 0)
    (hreach : Reaches g s (s.put r t' x')) (hwr : w r = .within place)
    (hat : x'.At (g.member r) base (.within place')) (hresults : x'.results = (s.rank r).results)
    (hρ : s.offers (s.rank r).results.length r = some ρ) {call : LinkCall} {a : call.Answer}
    (hmove : Moves (g.member r) (base + (s.rank r).results.length + 1) ρ place call a place')
    (hallows : l.Allows g.size r call a l') :
    InStep g base (s.put r t' x') l' (Function.update w r (.within place')) := by
  have hplaced := h.placed r hr place hwr
  cases hmove with
  | lead hroot => exact absurd (Roster.eq_zero_of_isRoot hroot) hr0
  | follow hroot =>
    cases hallows
    have hcoupled := h.coupled r hr hr0
    rw [Coupled, hwr] at hcoupled
    exact h.talkUp hr hr0 hreach hwr hat hresults rfl (fun _ _ => ⟨rfl, rfl⟩) hcoupled hr0
  | contribute => exact h.contribute hr hr0 hreach hwr hat hresults hρ rfl rfl hallows
  | unheard e => exact h.unheard hr hr0 hreach hwr hat hresults rfl rfl hallows
  | reply a => exact h.reply hr hr0 hreach hwr hat hresults hρ rfl rfl hallows
  | collect received peer rest a => exact absurd hplaced.1 hr0
  | answer replies peer payload rest => exact absurd hplaced.1 hr0
  | unanswered replies peer payload rest e => exact absurd hplaced.1 hr0
  | abandon e => exact absurd hplaced.1 hr0
  | tell e peer rest => exact absurd hplaced.1 hr0
  | untold e cause peer rest event => exact absurd hplaced.1 hr0
  | note e event rest => exact absurd hplaced.1 hr0

theorem InStep.leave (h : InStep g base s l w) (hr : r < g.size)
    (hreach : Reaches g s (s.put r t' x')) (hwr : w r = .between)
    (hat : x'.At (g.member r) base .gone) (hentered : x'.entered = (s.rank r).entered)
    (hresults : x'.results = (s.rank r).results)
    (hallows : l.Allows g.size r .leave () l') :
    InStep g base (s.put r t' x') l' (Function.update w r .gone) := by
  cases hallows
  have hstands := (h.standing r hr).stands
  rw [hwr] at hstands
  refine h.put hreach hat ?_ ?_ (fun _ hw => by cases hw) (h.fates_mono hr hreach hresults) ?_
  · intro q hq
    by_cases hqr : q = r
    · subst hqr
      simp [Lines.shut]
    · rw [Function.update_of_ne hqr, ← h.isOpen q hq]
      simp [Lines.shut, hqr]
  · intro p hp hp0
    have hcoupled := h.coupled p hp hp0
    by_cases hr0 : r = 0
    · subst hr0
      rw [coupled_root hp0, hresults]
      rw [Coupled, hwr] at hcoupled
      exact coupling_mono (hcoupled.rootLeaves rfl rfl) hreach
    · by_cases hrp : r = p
      · subst hrp
        rw [coupled_peer hr0, hresults]
        rw [Coupled, hwr] at hcoupled
        exact coupling_mono (hcoupled.peerLeaves rfl rfl) hreach
      · exact hcoupled.keep hp0 hreach rfl rfl (fun h => absurd h hr0) fun h => absurd h hrp
  · intro _
    rw [hentered, hresults]
    exact hstands.2

theorem InStep.conclude (h : InStep g base s l w) (hr : r < g.size)
    (hreach : Reaches g s (s.put r t' x')) {result : Except GroupError Payload}
    (hwr : w r = .within (.finished result)) (hat : x'.At (g.member r) base .between)
    (hresults : x'.results = (s.rank r).results ++ [result]) :
    InStep g base (s.put r t' x') l (Function.update w r .between) := by
  have hlength : x'.results.length = (s.rank r).results.length + 1 := by simp [hresults]
  refine h.still hreach hat (by simp [hwr]) nofun ?_ ?_ (fun _ hw => by cases hw) ?_
  · rintro rfl p _ _
    rw [hwr, hlength]
    rfl
  · intro _
    rw [hwr, hlength]
    rfl
  · intro i x hi
    rw [hresults] at hi
    refine forall_getElem?_concat (P := fun i y => (s.put r t' x').Fate g i r y)
      (fun i y hy => (h.fates r hr i y hy).mono hreach) ?_ hi
    exact (h.placed r hr _ hwr).mono hreach

theorem InStep.shift {lines : C.State → Lines} (hC : C.Faithful g.size lines)
    (h : InStep g base s (lines s.carrier) w) (hr : r < g.size)
    (hact : Act g r s.carrier (s.rank r) t' x') (hat : x'.At (g.member r) base w')
    (hshift : (s.rank r).Shift (g.member r) base s.carrier (w r) t' x' w') :
    InStep g base (s.put r t' x') (lines t') (Function.update w r w') := by
  have hreach : Reaches g s (s.put r t' x') := .single ⟨r, hr, t', x', hact, rfl⟩
  generalize hwr : w r = wr at hshift
  cases hshift with
  | enter ρ _ hentered hresults =>
    refine h.still hreach hat (by simp [hwr]) nofun ?_ ?_ ?_ (h.fates_mono hr hreach hresults)
    · rintro rfl p _ _
      rw [hwr, hresults]
      rfl
    · intro _
      rw [hwr, hresults]
      rfl
    · rintro _ ⟨⟩
      exact trivial
  | talk ρ place place' call a _ _ hρ hmove ha hentered hresults =>
    have hallows := hC.sound hr ha
    by_cases hr0 : r = 0
    · subst hr0
      exact h.moveDown hr hreach hwr hat hresults hρ hmove hallows
    · exact h.moveUp hr hr0 hreach hwr hat hresults hρ hmove hallows
  | conclude result _ hentered hresults => exact h.conclude hr hreach hwr hat hresults
  | other _ hentered hresults =>
    refine h.still hreach hat (by simp [hwr]) nofun ?_ ?_ (fun _ hw => by cases hw)
      (h.fates_mono hr hreach hresults)
    · rintro rfl p _ _
      rw [hwr, hresults]
    · intro _
      rw [hwr, hresults]
  | leave _ _ ha hentered hresults =>
    exact h.leave hr hreach hwr hat hentered hresults (hC.sound hr ha)

theorem InStep.advance {lines : C.State → Lines} (hC : C.Faithful g.size lines)
    (h : InStep g base s (lines s.carrier) w) (hstep : Advance g s s') :
    ∃ w', InStep g base s' (lines s'.carrier) w' := by
  obtain ⟨r, hr, t', x', hact, rfl⟩ := hstep
  obtain ⟨w', hat, hshift⟩ := (h.standing r hr).shift hact
  exact ⟨_, h.shift hC hr hact hat hshift⟩

theorem inStep_start {t : C.State} {plans : Nat → Plan J α} (hl : l.Fresh g.size) :
    InStep g base (start t plans base) l fun _ => .between where
  standing q _ := ⟨rfl, ⟨_, rfl⟩, rfl⟩
  isOpen q hq := by simp [(hl q hq).1]
  coupled p hp hp0 := by
    rw [Coupled, (hl p hp).2 0 (by omega), (hl 0 (by omega)).2 p hp]
    exact .even true true 0
  placed q _ place hw := nomatch hw
  fates q _ i x hi := by simp [start] at hi
  left q _ hw := nomatch hw

theorem inStep_of_reaches {lines : C.State → Lines} (hC : C.Faithful g.size lines) {t : C.State}
    (ht : (lines t).Fresh g.size) {plans : Nat → Plan J α} (hs : Reaches g (start t plans base) s) :
    ∃ w, InStep g base s (lines s.carrier) w := by
  induction hs with
  | refl => exact ⟨_, inStep_start ht⟩
  | tail _ hstep ih =>
    obtain ⟨w, hw⟩ := ih
    exact hw.advance hC hstep

/-! ## Nobody waits for ever -/

theorem InStep.step_or_waits {lines : C.State → Lines} (hC : C.Faithful g.size lines)
    (hJ : ∀ call, Nonempty (J.Answer call)) (h : InStep g base s (lines s.carrier) w)
    (hr : r < g.size) (hw : w r ≠ .gone) : (∃ s', Advance g s s') ∨
      ∃ peer < g.size, (lines s.carrier).queue peer r = [] ∧ w peer ≠ .gone ∧
        (w r = .within .awaiting ∧ peer = 0 ∨
          ∃ received rest, w r = .within (.collecting received peer rest)) := by
  have hact {t' : C.State} {x' : Rank J α} (h : Act g r s.carrier (s.rank r) t' x') :
      ∃ s', Advance g s s' := ⟨_, r, hr, t', x', h, rfl⟩
  have hstands := (h.standing r hr).stands
  cases hwr : w r with
  | gone => exact absurd hwr hw
  | between =>
    rw [hwr] at hstands
    obtain ⟨⟨plan, hplan⟩, -⟩ := hstands
    refine .inl ?_
    cases plan with
    | done a =>
      obtain ⟨_, t', ha⟩ := hC.live (t := s.carrier) hr .left
      exact hact (.leave a t' hplan ha)
    | ask call next =>
      cases call with
      | exchange ρ => exact hact (.enter ρ next hplan)
      | other call => exact hact (.other call next (hJ call).some hplan)
  | within place =>
    rw [hwr] at hstands
    obtain ⟨past, ρ, next, -, -, hstage⟩ := hstands
    rw [Place.dialogue] at hstage
    rcases place.inversion (m := g.member r) (k := base + (s.rank r).results.length + 1) (ρ := ρ)
      with ⟨result, rfl⟩ | ⟨call, go, hrest, hmoves⟩
    · exact .inl (hact (.conclude ρ result _ next hstage))
    · rw [hrest] at hstage
      rcases (lines s.carrier).allows_or_waits g.size r call with
        ⟨a, l', hallows⟩ | ⟨peer, rfl, hpeer, hempty, hopen⟩
      · obtain ⟨b, t', ha⟩ := hC.live hr hallows
        exact .inl (hact (.talk ρ call _ next b t' hstage ha))
      · refine .inr ⟨peer, hpeer, hempty, (h.isOpen peer hpeer).mp hopen, ?_⟩
        obtain ⟨_, hmove, -⟩ := hmoves (.error (.disconnected peer))
        rcases hmove.of_receive with ⟨rfl, rfl⟩ | ⟨received, rest, rfl⟩
        · exact .inl ⟨rfl, rfl⟩
        · exact .inr ⟨received, rest, rfl⟩

theorem InStep.not_both_wait (h : InStep g base s l w) {peer : Nat} (hpeer : peer < g.size)
    (hpeer0 : peer ≠ 0) {received : List (Except GroupError Payload)} {rest : List Nat}
    (hw0 : w 0 = .within (.collecting received peer rest)) (hwp : w peer = .within .awaiting)
    (hup : l.queue peer 0 = []) (hdown : l.queue 0 peer = []) : False := by
  have hcoupled := h.coupled peer hpeer hpeer0
  have hcount : ((w 0).rootCount peer (s.rank 0).results.length) =
      ⟨true, (s.rank 0).results.length, (s.rank 0).results.length⟩ := by
    simp [hw0, Station.rootCount, Place.rootCount, beyond]
  rw [Coupled, hcount, hwp, hup, hdown] at hcoupled
  have howed : (s.rank 0).results.length ≤ (s.rank peer).results.length :=
    hcoupled.answered_le_of_empty rfl
  obtain ⟨f, hf, -⟩ := hcoupled.up_some rfl (Nat.lt_succ_of_le howed)
  cases hf

/-- As long as a rank is there, some rank can take a step. -/
theorem InStep.progress {lines : C.State → Lines} (hC : C.Faithful g.size lines)
    (hJ : ∀ call, Nonempty (J.Answer call)) (h : InStep g base s (lines s.carrier) w) :
    (∃ s', Advance g s s') ∨ ∀ q < g.size, w q = .gone := by
  by_cases hall : ∀ q < g.size, w q = .gone
  · exact .inr hall
  refine .inl ?_
  simp only [not_forall] at hall
  obtain ⟨q, hq, hwq⟩ := hall
  by_cases hroot : w 0 = .gone
  · -- A peer waits for the root only.
    rcases h.step_or_waits hC hJ hq hwq with hstep | ⟨peer, -, -, hpeer, hwait⟩
    · exact hstep
    · rcases hwait with ⟨-, rfl⟩ | ⟨received, rest, hwq'⟩
      · exact absurd hroot hpeer
      · obtain ⟨rfl, -⟩ := h.placed q hq _ hwq'
        exact absurd hroot hwq
  · have hsize : 0 < g.size := by omega
    rcases h.step_or_waits hC hJ hsize hroot with hstep | ⟨peer, hpeer, hup, hhere, hwait⟩
    · exact hstep
    rcases hwait with ⟨hw0, -⟩ | ⟨received, rest, hw0⟩
    · exact absurd rfl (h.placed 0 hsize _ hw0)
    obtain ⟨-, -, hrest⟩ := h.placed 0 hsize _ hw0
    have hpeer0 : peer ≠ 0 := by
      obtain ⟨rfl, -⟩ := next_peer hrest
      omega
    rcases h.step_or_waits hC hJ hpeer hhere with hstep | ⟨_, _, hdown, _, hwait⟩
    · exact hstep
    rcases hwait with ⟨hwp, rfl⟩ | ⟨received', rest', hwp⟩
    · exact (h.not_both_wait hpeer hpeer0 hw0 hwp hup hdown).elim
    · exact absurd (h.placed peer hpeer _ hwp).1 hpeer0

end Lagmeter.Assembly
