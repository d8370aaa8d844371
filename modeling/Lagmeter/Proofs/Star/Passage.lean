import Lagmeter.Proofs.Star.Mirror
import Lagmeter.Proofs.Star.Reports

/-!
# Orderly ranks

Ranks that follow plans over lines make no call that a star would answer otherwise. They talk along
its connections, what they send fits its pipes, and a rank that cannot send any more has read all
that the other one left.

Contributions and replies fit because the rounds say so, in which every frame of this kind comes up.
A report of a failure fits anyway.
-/

namespace Lagmeter

open Exchange

variable {β : Type}

/-- All that the ranks contribute, and all that they get in reply, fits the pipes of a star. -/
structure Fitting (g : Roster) (base : Nat) (plans : Nat → Plan Silent β) : Prop where
  size : g.size < 256 ^ 8
  contribution : ∀ k, ∀ q < g.size, ∀ ρ, roundOffers g.size plans k q = some ρ →
    (ρ.frame (base + k + 1)).Fits ∧ (q ≠ 0 → (ρ.frame (base + k + 1)).width ≤ Star.maxFrame)
  reply : ∀ k ρ replies, roundOffers g.size plans k 0 = some ρ →
    Agreed g.size (roundOffers g.size plans k) replies →
    ∀ q < g.size, q ≠ 0 → ∀ payload, replies[q]? = some payload →
      Star.Portable (frame (ρ.step (base + k + 1)) payload)

/-! ## Every offer is one of a round -/

namespace Assembly

variable {C : Carrier} {lines : C.State → Lines} {g : Roster} {base k q : Nat}
  {s : Assembly C Silent β} {w : Nat → Station} {t : C.State} {plans : Nat → Plan Silent β}

theorem InStep.completes (hC : C.Faithful g.size lines)
    (hw : InStep g base s (lines s.carrier) w) :
    ∃ s' w', Reaches g s s' ∧ InStep g base s' (lines s'.carrier) w' ∧ ∀ q < g.size, w' q = .gone := by
  induction s using wellFounded_advance (g := g) |>.induction generalizing w with
  | _ s ih =>
  rcases hw.progress hC (fun call => Empty.elim call) with ⟨s₁, hadvance⟩ | hgone
  · obtain ⟨w₁, hw₁⟩ := hw.advance hC hadvance
    obtain ⟨s', w', hreach, hfinal⟩ := ih s₁ hadvance hw₁
    exact ⟨s', w', Relation.ReflTransGen.head hadvance hreach, hfinal⟩
  · exact ⟨s, w, .refl, hw, hgone⟩

theorem complete_of_gone (hs : Reaches g (start t plans base) s) {l : Lines}
    (hw : InStep g base s l w) (hgone : ∀ q < g.size, w q = .gone) : s.Complete g := by
  intro r hr
  have hstands := (hw.standing r hr).stands
  rw [hgone r hr] at hstands
  obtain ⟨result, hstage⟩ := hstands
  have hkeeps := keeps_of_reaches hs r
  unfold Rank.Keeps at hkeeps
  rw [hstage] at hkeeps
  obtain ⟨b, rfl, -⟩ := hkeeps
  exact ⟨b, hstage⟩

variable (hC : C.Faithful g.size lines) (hplans : ∀ r < g.size, (plans r).Blind (g.member r))
  (hs : Reaches g (start t plans base) s) (hw : InStep g base s (lines s.carrier) w)

include hC hplans hs hw

theorem round_of_offer (hq : q < g.size) {ρ : Offer} (hρ : s.offers k q = some ρ) :
    roundOffers g.size plans k q = some ρ := by
  obtain ⟨s', w', hreach, hw', hgone⟩ := hw.completes hC
  have hs' : Reaches g (start t plans base) s' := Relation.ReflTransGen.trans hs hreach
  rw [← offers_of_complete hplans hs' hw' (complete_of_gone hs' hw' hgone) k hq]
  exact hreach.grows _ _ _ hρ

theorem round_of_agreed {replies : List Payload} (h : Agreed g.size (s.offers k) replies) :
    Agreed g.size (roundOffers g.size plans k) replies :=
  h.mono fun _ hq _ hρ => round_of_offer hC hplans hs hw hq hρ

end Assembly

/-! ## What the root has found -/

/-- What the root received, if it can be passed on. -/
def Tame : Except GroupError Payload → Prop
  | .ok payload => payload.Fits
  | .error e => e.Brief

namespace Exchange.Place

/-- All that the root has to pass on from this place can travel. -/
def Tame : Place → Prop
  | .collecting received _ _ => ∀ x ∈ received, Lagmeter.Tame x
  | .abandoning e | .telling e _ _ | .noting e _ _ => e.Brief
  | _ => True

variable {m : Member} {q : Request} {received : List (Except GroupError Payload)}

theorem tame_answerTo (replies : List Payload) (rest : List (Nat × Payload)) :
    (answerTo replies rest).Tame := by
  cases rest <;> trivial

theorem tame_tellTo {e : GroupError} (h : e.Brief) (rest : List Nat) : (tellTo e rest).Tame := by
  cases rest with
  | nil => trivial
  | cons _ _ => exact h

theorem tame_collectFrom (hcheck : q.check m = .ok ()) (hsize : m.size < 256 ^ 8)
    (hlength : received.length < m.size) (hown : (q.offer m).contribution.Fits)
    (hreceived : ∀ x ∈ received, Lagmeter.Tame x) (rest : List Nat) :
    (collectFrom m.size (q.offer m) received rest).Tame := by
  cases rest with
  | cons _ _ => exact hreceived
  | nil =>
    simp only [collectFrom, decide]
    split
    case h_1 e he =>
      exact brief_of_outcome hcheck hsize hlength hown (fun p hp => hreceived _ hp)
        (fun e he => hreceived _ he) he
    case h_2 => exact tame_answerTo _ _

end Exchange.Place

theorem tame_checked {peer k : Nat} {ρ ρ' : Offer} (hpeer : peer < 256 ^ 8)
    (hf : (ρ'.frame k).Fits) : Tame (checked peer (ρ.step k) (ρ'.frame k)) := by
  unfold checked
  split
  · exact hf.payload
  · exact GroupError.brief_outOfStep (small_of_lt hpeer) (small_of_lt hf.sequence)
      (small_of_lt hf.sequence)

theorem Star.Usual.brief {peer : Nat} {e : GroupError} (hpeer : peer < 256 ^ 8)
    (h : Star.Usual (.receive peer) (.error e)) : e.Brief := by
  rcases h with rfl | rfl
  · exact GroupError.brief_disconnected (small_of_lt hpeer)
  · exact GroupError.brief_brokenPipe

/-! ## A run -/

/-- Ranks on their way over lines, and what is known of them. -/
structure Passage (g : Roster) (base : Nat) (l₀ : Lines) (plans : Nat → Plan Silent β)
    (s : Assembly (Lines.usual g.size) Silent β) (w : Nat → Station) : Prop where
  reaches : Assembly.Reaches g (Assembly.start l₀ plans base) s
  inStep : Assembly.InStep g base s s.carrier w
  tame : ∀ place, w 0 = .within place → place.Tame

namespace Passage

variable {g : Roster} {base : Nat} {l₀ : Lines} {plans : Nat → Plan Silent β}
  {s s' : Assembly (Lines.usual g.size) Silent β} {w : Nat → Station} {r : Nat}
  {place place' : Place} {ρ : Offer} {call : LinkCall} {a : call.Answer} {l' : Lines}

theorem start (hl : l₀.Fresh g.size) : Passage g base l₀ plans (Assembly.start l₀ plans base)
    fun _ => .between where
  reaches := .refl
  inStep := Assembly.inStep_start hl
  tame _ hw := nomatch hw

section

variable (hplans : ∀ r < g.size, (plans r).Blind (g.member r)) (hfit : Fitting g base plans)
  (h : Passage g base l₀ plans s w)

include hplans hfit h

theorem fits (hr : r < g.size) {k : Nat} (hρ : s.offers k r = some ρ) :
    (ρ.frame (base + k + 1)).Fits ∧ (r ≠ 0 → (ρ.frame (base + k + 1)).width ≤ Star.maxFrame) :=
  hfit.contribution k r hr ρ
    (Assembly.round_of_offer (Lines.faithful_usual g.size) hplans h.reaches h.inStep hr hρ)

omit hfit in
theorem request (hr : r < g.size) {k : Nat} (hρ : s.offers k r = some ρ) :
    ∃ q : Request, q.check (g.member r) = .ok () ∧ ρ = q.offer (g.member r) :=
  (blind_rounds hplans k r hr).offer
    (Assembly.round_of_offer (Lines.faithful_usual g.size) hplans h.reaches h.inStep hr hρ)

theorem tame_received (ρ : Offer) (hsize : 0 < g.size)
    {received : List (Except GroupError Payload)} {peer : Nat} {rest : List Nat}
    (hw0 : w 0 = .within (.collecting received peer rest)) {a : Except GroupError Frame}
    (ha : (Lines.usual g.size).Answers s.carrier 0 (.receive peer) a l') :
    Tame (a.bind (checked peer (ρ.step (base + (s.rank 0).results.length + 1)))) := by
  obtain ⟨-, -, hrest⟩ := h.inStep.placed 0 hsize _ hw0
  obtain ⟨rfl, -, -⟩ := next_peer hrest
  have hpeer : received.length + 1 < g.size := by
    have hlast := congrArg List.length hrest
    rw [List.length_cons, List.length_range'] at hlast
    omega
  have hsmall : received.length + 1 < 256 ^ 8 := Nat.lt_trans hpeer hfit.size
  have hopen : s.carrier.isOpen 0 = true := (h.inStep.isOpen 0 hsize).mpr (by simp [hw0])
  obtain ⟨hallows, husual⟩ := ha
  cases hallows with
  | bereft _ e _ => exact (husual hopen).brief hsmall
  | received _ f _ _ hf =>
    have hcoupled := h.inStep.coupled _ hpeer (by omega)
    rw [Assembly.Coupled, hw0] at hcoupled
    obtain ⟨⟨ρ', hρ', rfl⟩, -⟩ := hcoupled.collect rfl hf
    have hcount : (Station.rootCount (received.length + 1) (s.rank 0).results.length
        (.within (.collecting received (received.length + 1) rest))).collected =
        (s.rank 0).results.length := by simp [Station.rootCount, Place.rootCount, beyond]
    rw [hcount] at hρ' ⊢
    exact tame_checked hsmall (h.fits hplans hfit hpeer hρ').1

theorem tame_move (hsize : 0 < g.size) (hw0 : w 0 = .within place)
    (hρ : s.offers (s.rank 0).results.length 0 = some ρ)
    (hmove : Moves (g.member 0) (base + (s.rank 0).results.length + 1) ρ place call a place')
    (ha : (Lines.usual g.size).Answers s.carrier 0 call a l') : place'.Tame := by
  have htame := h.tame place hw0
  have hown := (h.fits hplans hfit hsize hρ).1.payload
  cases hmove with
  | lead =>
    obtain ⟨q, hcheck, rfl⟩ := h.request hplans hsize hρ
    have hnone : ([] : List (Except GroupError Payload)).length < (g.member 0).size := hsize
    exact Place.tame_collectFrom hcheck hfit.size hnone hown (List.forall_mem_nil _) _
  | follow | contribute | unheard | reply | unanswered => trivial
  | collect received peer rest a =>
    obtain ⟨q, hcheck, rfl⟩ := h.request hplans hsize hρ
    have hnew := h.tame_received hplans hfit (q.offer (g.member 0)) hsize hw0 ha
    obtain ⟨-, -, hrest⟩ := h.inStep.placed 0 hsize _ hw0
    have hlast := congrArg List.length hrest
    rw [List.length_cons, List.length_range'] at hlast
    refine Place.tame_collectFrom hcheck hfit.size ?_ hown (fun x hx => ?_) _
    · rw [List.length_append, List.length_singleton]
      show _ < g.size
      omega
    · rcases List.mem_append.mp hx with hx | hx
      · exact htame x hx
      · exact List.mem_singleton.mp hx ▸ hnew
  | answer => exact Place.tame_answerTo _ _
  | abandon | tell | note => exact Place.tame_tellTo htame _
  | untold => exact htame

theorem advance (hstep : Assembly.Advance g s s') : ∃ w', Passage g base l₀ plans s' w' := by
  have hC := Lines.faithful_usual g.size
  obtain ⟨r, hr, t', x', hact, rfl⟩ := id hstep
  obtain ⟨w', hat, hshift⟩ := (h.inStep.standing r hr).shift hact
  refine ⟨_, h.reaches.tail hstep, h.inStep.shift hC hr hact hat hshift, fun place hw => ?_⟩
  by_cases hr0 : r = 0
  · subst hr0
    rw [Function.update_self] at hw
    subst hw
    generalize hw0 : w 0 = w0 at hshift
    cases hshift with
    | enter => trivial
    | talk ρ place₀ _ call a _ _ hρ hmove ha => exact h.tame_move hplans hfit hr hw0 hρ hmove ha
  · rw [Function.update_of_ne (Ne.symm hr0)] at hw
    exact h.tame place hw

theorem extend (hreach : Assembly.Reaches g s s') : ∃ w', Passage g base l₀ plans s' w' := by
  induction hreach with
  | refl => exact ⟨w, h⟩
  | tail _ hstep ih =>
    obtain ⟨w₁, h₁⟩ := ih
    exact h₁.advance hplans hfit hstep

end

end Passage

/-! ## Calls -/

namespace Coupling

variable {Up Down : Nat → Frame → Prop} {root : RootCount} {peer : PeerCount} {up down : List Frame}

theorem up_nil_of_left (h : Coupling Up Down root peer up down) (hr : root.here)
    (hp : ¬ peer.here) : up = [] :=
  h.up_nil hr (Nat.le_trans (h.late hr hp) h.order)

theorem down_nil_of_left (h : Coupling Up Down root peer up down) (hr : ¬ root.here)
    (hp : peer.here) (hidle : peer.sent = peer.taken) : down = [] :=
  h.down_nil fun _ => h.answered_le_of_idle hr hp hidle

end Coupling

namespace Passage

variable {g : Roster} {base : Nat} {l₀ : Lines} {plans : Nat → Plan Silent β}
  {s : Assembly (Lines.usual g.size) Silent β} {w : Nat → Station} {r : Nat}
  {place place' : Place} {ρ : Offer} {call : LinkCall} {a : call.Answer}

theorem read_up (h : Passage g base l₀ plans s w) {peer : Nat} (hpeer : peer < g.size)
    (hpeer0 : peer ≠ 0) (hw0 : w 0 ≠ .gone) (hclosed : s.carrier.isOpen peer = false) :
    s.carrier.queue peer 0 = [] :=
  (h.inStep.coupled peer hpeer hpeer0).up_nil_of_left (Station.rootCount_here.mpr hw0)
    (by simp [Station.peerCount_here, h.inStep.gone_of_closed hpeer hclosed])

theorem read_down (h : Passage g base l₀ plans s w) (hr : r < g.size) (hr0 : r ≠ 0)
    (hwr : w r = .within .sending) (hclosed : s.carrier.isOpen 0 = false) :
    s.carrier.queue 0 r = [] := by
  have hcoupled := h.inStep.coupled r hr hr0
  have hroot : w 0 = .gone := h.inStep.gone_of_closed (by omega) hclosed
  rw [Assembly.Coupled, hwr] at hcoupled
  exact hcoupled.down_nil_of_left (by simp [Station.rootCount_here, hroot]) rfl rfl

/-- Ranks in their exchanges make orderly calls. -/
theorem orderly (hplans : ∀ r < g.size, (plans r).Blind (g.member r)) (hfit : Fitting g base plans)
    (h : Passage g base l₀ plans s w) (hr : r < g.size) (hwr : w r = .within place)
    (hρ : s.offers (s.rank r).results.length r = some ρ)
    (hmove : Moves (g.member r) (base + (s.rank r).results.length + 1) ρ place call a place') :
    Star.Orderly g.size s.carrier r call := by
  have hplaced := h.inStep.placed r hr place hwr
  have hfits := h.fits hplans hfit hr hρ
  have hsize : 0 < g.size := by omega
  have hup (hr0 : r ≠ 0) : Star.Joined g.size r 0 := ⟨hr, hsize, hr0, .inr rfl⟩
  have hdown {peer : Nat} (hpeer : peer < g.size) (hpeer0 : peer ≠ 0) (hr0 : r = 0) :
      Star.Joined g.size r peer := ⟨hr, hpeer, hr0 ▸ hpeer0.symm, .inl hr0⟩
  cases hmove with
  | lead | follow | abandon | note => trivial
  | contribute | unheard =>
    exact fun _ => ⟨hup hplaced, ⟨hfits.1, hfits.2 hplaced⟩, h.read_down hr hplaced hwr⟩
  | reply => exact fun _ => hup hplaced
  | collect received peer rest =>
    obtain ⟨rfl, -, hrest⟩ := hplaced
    obtain ⟨rfl, -, -⟩ := next_peer hrest
    have hlast := congrArg List.length hrest
    rw [List.length_cons, List.length_range'] at hlast
    exact fun _ => hdown (by omega) (by omega) rfl
  | answer replies peer payload rest | unanswered replies peer payload rest =>
    obtain ⟨rfl, hagreed, hsuffix⟩ := hplaced
    obtain ⟨hpeer, hpeer0, -, -, hreply⟩ := next_answered hagreed.length_eq hsuffix
    have hC := Lines.faithful_usual g.size
    have hportable := hfit.reply _ ρ replies
      (Assembly.round_of_offer hC hplans h.reaches h.inStep hsize hρ)
      (Assembly.round_of_agreed hC hplans h.reaches h.inStep hagreed) peer hpeer hpeer0 payload hreply
    exact fun _ => ⟨hdown hpeer hpeer0 rfl, hportable, h.read_up hpeer hpeer0 (by simp [hwr])⟩
  | tell e peer rest | untold e _ peer rest =>
    obtain ⟨rfl, -, hsuffix⟩ := hplaced
    obtain ⟨hpeer, hpeer0, -, -⟩ := next_told hsuffix
    have hbrief : e.Brief := h.tame _ hwr
    exact fun _ => ⟨hdown hpeer hpeer0 rfl, hbrief.portable hfits.1.sequence,
      h.read_up hpeer hpeer0 (by simp [hwr])⟩

end Passage

end Lagmeter
