import Lagmeter.Proofs.Group.Mesh
import Lagmeter.Proofs.Star.Passage

/-!
# The star refines the mesh

A star and a mesh both track lines: whatever they answer to an orderly call is what the lines allow,
and they answer whenever the lines do. Ranks that follow visits make orderly calls only. So both
come to their ends in every order of steps, and what each rank makes of its operations is what the
rounds say, over the star as over the mesh.
-/

namespace Lagmeter

open Exchange

/-! ## Carriers that track lines -/

namespace Carrier

/-- As long as the ranks are orderly, the carrier does what lines do that it is related to. -/
structure Tracks (C : Carrier) (size : Nat) (R : C.State → Lines → Prop) : Prop where
  sound : ∀ {t t' : C.State} {l : Lines} {rank : Nat} {call : LinkCall} {a : call.Answer},
    R t l → rank < size → Star.Orderly size l rank call → C.Answers t rank call a t' →
    ∃ l', (Lines.usual size).Answers l rank call a l' ∧ R t' l'
  live : ∀ {t : C.State} {l l' : Lines} {rank : Nat} {call : LinkCall} {a : call.Answer},
    R t l → rank < size → Star.Orderly size l rank call → l.Allows size rank call a l' →
    ∃ b t', C.Answers t rank call b t'

end Carrier

theorem Star.tracks (size : Nat) : Star.carrier.Tracks size (Star.Carries size) where
  sound h hr horderly ha := by
    obtain ⟨l', hallows, hcarries, husual⟩ := h.sound hr horderly ha
    exact ⟨l', ⟨hallows, husual⟩, hcarries⟩
  live h hr horderly ha := h.live hr horderly ha

namespace Mesh

variable {size rank peer : Nat} {m m' : (carrier size).State}

theorem Joined.checkPeer (h : Star.Joined size rank peer) (hm : Fits size m.1) :
    m.1.checkPeer rank peer = .ok () :=
  (checkPeer_eq_ok_iff hm).mpr ⟨h.right, h.ne.symm⟩

theorem usual_of_answers {call : LinkCall} {a : call.Answer}
    (horderly : Star.Orderly size (lines size m) rank call)
    (ha : (carrier size).Answers m rank call a m') (hopen : (lines size m).isOpen rank = true) :
    Star.Usual call a := by
  obtain ⟨raised, ha⟩ := ha
  generalize m'.1 = next at ha
  cases call with
  | close | leave | log => trivial
  | send peer f =>
    have hpeer := Joined.checkPeer (horderly hopen).1 m.2
    simp only [perform, Mesh.send, hpeer] at ha
    by_cases hboth : (m.1.openAt rank && m.1.openAt peer) = true
    · simp only [hboth, if_true] at ha
      cases ha
      trivial
    · simp only [hboth] at ha
      cases ha
      exact .inl rfl
  | receive peer =>
    have hpeer := Joined.checkPeer (horderly hopen) m.2
    have hthere : m.1.openAt rank = true := hopen
    simp only [perform, Mesh.receive, hpeer, hthere] at ha
    cases hq : m.1.queue peer rank with
    | cons f frames =>
      simp only [hq] at ha
      cases ha
      trivial
    | nil =>
      cases hother : m.1.openAt peer with
      | true => simp [hq, hother] at ha
      | false =>
        simp only [hq, hother] at ha
        cases ha
        exact .inl rfl

theorem tracks (size : Nat) : (carrier size).Tracks size fun m l => l = lines size m where
  sound := by
    rintro m m' _ rank call a rfl hr horderly ha
    exact ⟨_, ⟨(faithful size).sound hr ha, usual_of_answers horderly ha⟩, rfl⟩
  live := by
    rintro m _ l' rank call a rfl hr - ha
    exact (faithful size).live hr ha

end Mesh

/-! ## Visits over a carrier -/

namespace Net

variable {α : Type} {C : Carrier} {g : Roster} {base : Nat} {visits : Nat → Visit α}

/-- Ranks that are at the start of their visits, after operation number `base`. -/
def ofVisits (t : C.State) (g : Roster) (base : Nat) (visits : Nat → Visit α) : Net C α :=
  ⟨t, fun r => (visits r).talk (g.member r) base⟩

/-- What the ranks exchange up to their closings. -/
def plans (g : Roster) (visits : Nat → Visit α) (r : Nat) : Plan Silent (Visit.Ending α) :=
  (visits r).plan (g.member r)

theorem blind_plans (g : Roster) (visits : Nat → Visit α) :
    ∀ r < g.size, (plans g visits r).Blind (g.member r) :=
  fun r _ => (visits r).blind_plan _

/-- Ranks on their way over a carrier, and the assembly over lines that they are seen as. -/
structure Travels (R : C.State → Lines → Prop) (g : Roster) (base : Nat) (l₀ : Lines)
    (visits : Nat → Visit α) (n : Net C α)
    (s : Assembly (Lines.usual g.size) Silent (Visit.Ending α)) (w : Nat → Station) : Prop where
  related : R n.carrier s.carrier
  passage : Passage g base l₀ (plans g visits) s w
  voices : s.Voices g ⟨s.carrier, n.talk⟩

variable {R : C.State → Lines → Prop} {l₀ : Lines} {n n' : Net C α}
  {s : Assembly (Lines.usual g.size) Silent (Visit.Ending α)} {w : Nat → Station}

theorem travels_ofVisits {t : C.State} (ht : R t l₀) (hl : l₀.Fresh g.size) :
    Travels R g base l₀ visits (ofVisits t g base visits)
      (Assembly.start l₀ (plans g visits) base) fun _ => .between where
  related := ht
  passage := .start hl
  voices := ⟨rfl, fun r _ => ((visits r).planTalk_plan (g.member r) base).symm⟩

theorem orderly_of_planTalk {size rank k : Nat} {l : Lines} {m : Member}
    {p : Plan Silent (Visit.Ending α)} {call : LinkCall} {go : call.Answer → Dialogue Link α}
    (h : Visit.planTalk m p k = .ask call go) : Star.Orderly size l rank call := by
  cases p with
  | done b => rcases (Visit.Ending.of_ask h).1 with rfl | rfl <;> trivial
  | ask call' next =>
    cases call' with
    | exchange ρ =>
      cases h
      trivial
    | other call' => exact call'.elim

theorem planTalk_ne_done (m : Member) (p : Plan Silent (Visit.Ending α)) (k : Nat) (a : α) :
    Visit.planTalk m p k ≠ .done a := by
  cases p with
  | done b => cases b <;> exact nofun
  | ask call next =>
    cases call with
    | exchange ρ => exact nofun
    | other call => exact call.elim

section

variable (hfit : Fitting g base (plans g visits)) (h : Travels R g base l₀ visits n s w)

include hfit h

theorem Travels.orderly {r : Nat} (hr : r < g.size) {call : LinkCall}
    {go : call.Answer → Dialogue Link α} (htalk : n.talk r = .ask call go) :
    Star.Orderly g.size s.carrier r call := by
  have htells := h.voices.2 r hr
  have hat := h.passage.inStep.standing r hr
  unfold Rank.Tells at htells
  simp only [htalk] at htells
  cases hstage : (s.rank r).stage with
  | free plan =>
    rw [hstage] at htells
    exact orderly_of_planTalk htells.symm
  | gone result =>
    have hclosed := h.passage.inStep.closed_of_gone hr hstage
    cases call with
    | send | receive => exact fun hopen => Bool.noConfusion (hopen.symm.trans hclosed)
    | close | leave | log => trivial
  | busy ρ talk next =>
    rw [hstage] at htells
    obtain ⟨place, past, hwr, hentered, hpast, hplace⟩ := hat.of_busy hstage
    cases talk with
    | done y => exact orderly_of_planTalk htells.symm
    | ask call' go' =>
      cases htells
      -- Any answer shows which call it is.
      obtain ⟨a⟩ : Nonempty call.Answer := by
        cases call with
        | send | receive => exact ⟨.error (.disconnected 0)⟩
        | close => exact ⟨.ok ()⟩
        | leave | log => exact ⟨()⟩
      obtain ⟨place', hmove, -⟩ := Place.dialogue_ask hplace.symm a
      refine h.passage.orderly (blind_plans g visits) hfit hr hwr ?_ hmove
      rw [Assembly.offers, hentered, ← hpast, List.getElem?_concat_length]

theorem Travels.step (hC : C.Tracks g.size R) (hstep : n.Step g.size n') :
    ∃ s' w', Travels R g base l₀ visits n' s' w' := by
  obtain ⟨r, hr, call, go, a, t', htalk, ha, rfl⟩ := hstep
  obtain ⟨l', hl', hrelated⟩ := hC.sound h.related hr (h.orderly hfit hr htalk) ha
  have hlines : Net.Step g.size (⟨s.carrier, n.talk⟩ : Net (Lines.usual g.size) α)
      ⟨l', Function.update n.talk r (go a)⟩ := ⟨r, hr, call, go, a, l', htalk, hl', rfl⟩
  obtain ⟨s', hreach, hvoices⟩ := h.voices.step h.passage.inStep hlines
  obtain ⟨w', hpassage⟩ := h.passage.extend (blind_plans g visits) hfit hreach
  have hcarrier : l' = s'.carrier := hvoices.1
  subst hcarrier
  exact ⟨s', w', hrelated, hpassage, hvoices⟩

theorem Travels.step_of_lines (hC : C.Tracks g.size R) {n' : Net (Lines.usual g.size) α}
    (hstep : Net.Step g.size ⟨s.carrier, n.talk⟩ n') : ∃ n', n.Step g.size n' := by
  obtain ⟨r, hr, call, go, a, l', htalk, ha, rfl⟩ := hstep
  obtain ⟨b, t', hb⟩ := hC.live h.related hr (h.orderly hfit hr htalk) ha.1
  exact ⟨_, r, hr, call, go, b, t', htalk, hb, rfl⟩

theorem Travels.progress (hC : C.Tracks g.size R) :
    (∃ n', n.Step g.size n') ∨ ∀ r < g.size, ∃ a, n.talk r = .done a := by
  rcases h.voices.progress h.passage.inStep with ⟨n', hstep⟩ | ⟨-, -, -, -, hdone⟩
  · exact .inl (h.step_of_lines hfit hC hstep)
  · exact .inr hdone

omit hfit in
/-- What a rank has made of its operations at the end of its run is what the rounds say. -/
theorem Travels.value {r : Nat} (hr : r < g.size) {a : α} (ha : n.talk r = .done a) :
    ∃ k b, rounds g.size (plans g visits) k r = .done b ∧ a = b.value (g.member r) := by
  have hC := Lines.faithful_usual g.size
  have htells := h.voices.2 r hr
  have hat := h.passage.inStep.standing r hr
  unfold Rank.Tells at htells
  simp only [ha] at htells
  cases hstage : (s.rank r).stage with
  | free plan =>
    rw [hstage] at htells
    exact absurd htells.symm (planTalk_ne_done _ _ _ _)
  | busy ρ talk next =>
    rw [hstage] at htells
    cases talk with
    | done y => exact absurd htells.symm (planTalk_ne_done _ _ _ _)
    | ask call go => cases htells
  | gone result =>
    rw [hstage] at htells
    obtain ⟨b, rfl, hvalue⟩ := htells
    obtain ⟨s', w', hreach, hw', hgone⟩ := h.passage.inStep.completes hC
    have hs' := Relation.ReflTransGen.trans h.passage.reaches hreach
    have hcomplete := Assembly.complete_of_gone hs' hw' hgone
    have hstage' : (s'.rank r).stage = .gone (some b) := by rw [hreach.rank_eq hstage, hstage]
    obtain ⟨k, hk⟩ := Assembly.rounds_of_gone (blind_plans g visits) hs' hw' hcomplete hr hstage'
    exact ⟨k, b, hk, hvalue⟩

end

/-! ## Runs from the start -/

/-- Every run ends, and only when every rank has come to its end. -/
def Ends (size : Nat) (n : Net C α) : Prop :=
  (WellFounded fun n' n : Net C α => Step size n n') ∧
    ∀ n', n.Reaches size n' → (∃ n'', n'.Step size n'') ∨ ∀ r < size, ∃ a, n'.talk r = .done a

/-- Some run takes rank `r` to `a`. -/
def Gives (size : Nat) (n : Net C α) (r : Nat) (a : α) : Prop :=
  ∃ n', n.Reaches size n' ∧ n'.talk r = .done a

theorem Ends.exists_gives {size : Nat} (h : n.Ends size) {r : Nat} (hr : r < size) :
    ∃ a, n.Gives size r a := by
  obtain ⟨n', hreach, hdone⟩ := exists_end_of_wellFounded h.1 n h.2
  obtain ⟨a, ha⟩ := hdone r hr
  exact ⟨a, n', hreach, ha⟩

section

variable {t : C.State} (hC : C.Tracks g.size R) (ht : R t l₀) (hl : l₀.Fresh g.size)
  (hfit : Fitting g base (plans g visits))

include hC ht hl hfit

theorem travels_of_reaches (hn : (ofVisits t g base visits).Reaches g.size n) :
    ∃ s w, Travels R g base l₀ visits n s w := by
  induction hn with
  | refl => exact ⟨_, _, travels_ofVisits ht hl⟩
  | tail _ hstep ih =>
    obtain ⟨s, w, h⟩ := ih
    exact h.step hfit hC hstep

theorem ends_ofVisits : (ofVisits t g base visits).Ends g.size := by
  refine ⟨wellFounded_step, fun n hn => ?_⟩
  obtain ⟨s, w, h⟩ := travels_of_reaches hC ht hl hfit hn
  exact h.progress hfit hC

theorem value_of_gives {r : Nat} (hr : r < g.size) {a : α}
    (ha : (ofVisits t g base visits).Gives g.size r a) :
    ∃ k b, rounds g.size (plans g visits) k r = .done b ∧ a = b.value (g.member r) := by
  obtain ⟨n, hn, ha⟩ := ha
  obtain ⟨s, w, h⟩ := travels_of_reaches hC ht hl hfit hn
  exact h.value hr ha

end

/-! ## Star and mesh -/

def overStar (g : Roster) (base : Nat) (visits : Nat → Visit α) : Net Star.carrier α :=
  ofVisits (C := Star.carrier) (Star.ofSize g.size) g base visits

def overMesh (g : Roster) (base : Nat) (visits : Nat → Visit α) : Net (Mesh.carrier g.size) α :=
  ofVisits (C := Mesh.carrier g.size) (Mesh.fresh g.size) g base visits

/-- Over the star as over the mesh, all ranks come to their ends, with one and the same result each. -/
theorem star_refines_mesh (g : Roster) (base : Nat) (visits : Nat → Visit α)
    (hfit : Fitting g base (plans g visits)) :
    (overStar g base visits).Ends g.size ∧ (overMesh g base visits).Ends g.size ∧
    (∀ r < g.size, ∃ result, ∀ a,
      ((overStar g base visits).Gives g.size r a ↔ a = result) ∧
      ((overMesh g base visits).Gives g.size r a ↔ a = result)) ∧
    ∀ (peer : Nat) (fs : List Frame), (∀ f ∈ fs, Star.Portable f) →
      ∃ octets, fs.foldlM (Star.write false) {} = .ok ⟨octets, false⟩ ∧
        Star.readings peer (fs.length + 1) ⟨octets, true⟩ =
          some (fs.map .ok ++ [.error (.disconnected peer)]) := by
  have hl := Mesh.fresh_lines g.size
  have hstar : (overStar g base visits).Ends g.size :=
    ends_ofVisits (Star.tracks g.size) (Star.carries_ofSize hl) hl hfit
  have hmesh : (overMesh g base visits).Ends g.size :=
    ends_ofVisits (Mesh.tracks g.size) rfl hl hfit
  refine ⟨hstar, hmesh, fun r hr => ?_, fun peer fs hfs => ?_⟩
  · obtain ⟨a₀, hstar₀⟩ := hstar.exists_gives hr
    obtain ⟨b₀, hmesh₀⟩ := hmesh.exists_gives hr
    have hstarValue := fun a (ha : (overStar g base visits).Gives g.size r a) =>
      value_of_gives (Star.tracks g.size) (Star.carries_ofSize hl) hl hfit hr ha
    have hmeshValue := fun a (ha : (overMesh g base visits).Gives g.size r a) =>
      value_of_gives (Mesh.tracks g.size) rfl hl hfit hr ha
    obtain ⟨k, b, hb, rfl⟩ := hmeshValue b₀ hmesh₀
    -- Rounds come to one end only.
    have hunique {k' : Nat} {b' : Visit.Ending α}
        (hb' : rounds g.size (plans g visits) k' r = .done b') : b' = b := by
      have h := rounds_of_done hb (Nat.le_max_left k k')
      rw [rounds_of_done hb' (Nat.le_max_right k k')] at h
      cases h
      rfl
    refine ⟨b.value (g.member r), fun a => ⟨⟨fun ha => ?_, ?_⟩, ⟨fun ha => ?_, ?_⟩⟩⟩
    · obtain ⟨k', b', hb', rfl⟩ := hstarValue a ha
      rw [hunique hb']
    · rintro rfl
      obtain ⟨k', b', hb', rfl⟩ := hstarValue a₀ hstar₀
      rwa [hunique hb'] at hstar₀
    · obtain ⟨k', b', hb', rfl⟩ := hmeshValue a ha
      rw [hunique hb']
    · rintro rfl
      exact hmesh₀
  · exact ⟨Star.stream fs, Star.foldlM_write hfs {}, Star.readings_stream hfs⟩

/-- The root closes its link after the first operation, and the peer does not know. -/
def farewell (r : Nat) : Visit (List (Option Yield)) :=
  if r = 0 then .ofList [.request (.broadcastValue 7 0), .close, .request .barrier]
  else .ofList [.request (.broadcastValue 0 0), .request .barrier]

theorem rounds_farewell {k r : Nat} (hr : r < 2) (hk : 2 ≤ k) :
    ∃ b, rounds 2 (plans Assembly.pair farewell) k r = .done b ∧
      b.value (Assembly.pair.member r) = [some (.word 7), none] := by
  match r, hr with
  | 0, _ => exact ⟨_, rounds_of_done rfl hk, rfl⟩
  | 1, _ => exact ⟨_, rounds_of_done rfl hk, rfl⟩

theorem roundOffers_farewell {k q : Nat} (hq : q < 2) :
    roundOffers 2 (plans Assembly.pair farewell) (k + 2) q = none := by
  obtain ⟨b, hb, -⟩ := rounds_farewell hq (Nat.le_add_left 2 k)
  rw [roundOffers, hb]
  rfl

theorem fitting_farewell : Fitting Assembly.pair 0 (plans Assembly.pair farewell) where
  size := by decide
  contribution k q hq ρ hρ := by
    match k, q, hq with
    | 0, 0, _ =>
      cases hρ
      exact ⟨⟨by decide, show 1 < 256 ^ 8 by decide⟩, nofun⟩
    | 0, 1, _ =>
      cases hρ
      exact ⟨⟨by decide, trivial⟩, fun _ => by decide⟩
    | 1, 0, _ => cases hρ
    | 1, 1, _ =>
      cases hρ
      exact ⟨⟨by decide, trivial⟩, fun _ => by decide⟩
    | k + 2, q, hq =>
      have hnone := roundOffers_farewell (k := k) hq
      rw [show Assembly.pair.size = 2 from rfl, hnone] at hρ
      cases hρ
  reply k ρ replies hρ hagreed q hq hq0 payload hpayload := by
    match k with
    | 0 =>
      have hreplies : replies? 2 (roundOffers 2 (plans Assembly.pair farewell) 0) = some replies :=
        (replies?_eq_some (by decide)).mpr hagreed
      cases hreplies
      cases hρ
      obtain rfl : q = 1 := by
        have : q < 2 := hq
        omega
      cases hpayload
      exact ⟨⟨by decide, show 1 < 256 ^ 8 by decide⟩, by decide⟩
    | 1 => cases hρ
    | k + 2 =>
      have hnone := roundOffers_farewell (k := k) (q := 0) (by decide)
      rw [show Assembly.pair.size = 2 from rfl, hnone] at hρ
      cases hρ

theorem star_refines_mesh_farewell : Fitting Assembly.pair 0 (plans Assembly.pair farewell) ∧
    ∀ r < 2, ∀ a,
      ((overStar Assembly.pair 0 farewell).Gives 2 r a ↔ a = [some (.word 7), none]) ∧
      ((overMesh Assembly.pair 0 farewell).Gives 2 r a ↔ a = [some (.word 7), none]) := by
  refine ⟨fitting_farewell, fun r hr => ?_⟩
  obtain ⟨-, -, hresults, -⟩ := star_refines_mesh Assembly.pair 0 farewell fitting_farewell
  obtain ⟨result, hresult⟩ := hresults r hr
  have hvalue : result = [some (.word 7), none] := by
    obtain ⟨k, b, hb, rfl⟩ := value_of_gives (Star.tracks 2)
      (Star.carries_ofSize (Mesh.fresh_lines 2)) (Mesh.fresh_lines 2) fitting_farewell hr
      ((hresult result).1.mpr rfl)
    obtain ⟨b', hb', hvalue⟩ := rounds_farewell hr (Nat.le_max_right k 2)
    have h := rounds_of_done hb (Nat.le_max_left k 2)
    rw [show Assembly.pair.size = 2 from rfl, hb'] at h
    cases h
    exact hvalue
  exact hvalue ▸ hresult

end Net

end Lagmeter
