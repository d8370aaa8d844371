import Lagmeter.Proofs.Group.Coupling
import Lagmeter.Proofs.Group.Fate

/-!
# Ranks in step

As long as ranks leave only between two exchanges and their carrier is faithful, the root stays
coupled to every peer, whatever the ranks bring to their exchanges.
-/

namespace Lagmeter

open Exchange

/-! ## How far a rank is -/

/-- One more than `n`, unless peer `p` is among those that still come. -/
def beyond (p n : Nat) (rest : List Nat) : Nat := if p ∈ rest then n else n + 1

/-- What the root at a place in its next exchange has done with peer `p`, after `n` exchanges. -/
def Exchange.Place.rootCount (p n : Nat) : Place → RootCount
  | .entering | .sending | .awaiting => ⟨true, n, n⟩
  | .collecting _ peer rest => ⟨true, beyond p n (peer :: rest), n⟩
  | .answering _ peer _ rest => ⟨true, n + 1, beyond p n (peer :: rest.map Prod.fst)⟩
  | .abandoning _ => ⟨true, n + 1, n⟩
  | .telling _ peer rest => ⟨true, n + 1, beyond p n (peer :: rest)⟩
  | .noting _ _ rest => ⟨true, n + 1, beyond p n rest⟩
  | .finished _ => ⟨true, n + 1, n + 1⟩

def Exchange.Place.peerCount (n : Nat) : Place → PeerCount
  | .awaiting => ⟨true, n + 1, n⟩
  | .finished _ => ⟨true, n + 1, n + 1⟩
  | _ => ⟨true, n, n⟩

namespace Station

def rootCount (p n : Nat) : Station → RootCount
  | .between => ⟨true, n, n⟩
  | .within place => place.rootCount p n
  | .gone => ⟨false, n, n⟩

def peerCount (n : Nat) : Station → PeerCount
  | .between => ⟨true, n, n⟩
  | .within place => place.peerCount n
  | .gone => ⟨false, n, n⟩

theorem rootCount_here {p n : Nat} {w : Station} : (w.rootCount p n).here ↔ w ≠ .gone := by
  cases w with
  | between => simp [rootCount]
  | within place => cases place <;> simp [rootCount, Place.rootCount]
  | gone => simp [rootCount]

theorem peerCount_here {n : Nat} {w : Station} : (w.peerCount n).here ↔ w ≠ .gone := by
  cases w with
  | between => simp [peerCount]
  | within place => cases place <;> simp [peerCount, Place.peerCount]
  | gone => simp [peerCount]

theorem le_collected {p n : Nat} {w : Station} : n ≤ (w.rootCount p n).collected := by
  cases w with
  | between => exact Nat.le_refl n
  | within place =>
    cases place <;> simp only [rootCount, Place.rootCount, beyond] <;> (try split) <;> omega
  | gone => exact Nat.le_refl n

theorem le_taken {n : Nat} {w : Station} : n ≤ (w.peerCount n).taken := by
  cases w with
  | between => exact Nat.le_refl n
  | within place => cases place <;> simp [peerCount, Place.peerCount]
  | gone => exact Nat.le_refl n

end Station

namespace Exchange

variable {p n : Nat}

theorem beyond_cons_self {rest : List Nat} (h : p ∉ rest) :
    beyond p n rest = beyond p n (p :: rest) + 1 := by simp [beyond, h]

theorem beyond_cons_of_ne {q : Nat} {rest : List Nat} (h : p ≠ q) :
    beyond p n (q :: rest) = beyond p n rest := by simp [beyond, h]

theorem rootCount_tellTo (e : GroupError) (rest : List Nat) :
    (Place.tellTo e rest).rootCount p n = ⟨true, n + 1, beyond p n rest⟩ := by
  cases rest with
  | nil => simp [Place.tellTo, Place.rootCount, beyond]
  | cons _ _ => rfl

theorem rootCount_answerTo (replies : List Payload) (rest : List (Nat × Payload)) :
    (Place.answerTo replies rest).rootCount p n =
      ⟨true, n + 1, beyond p n (rest.map Prod.fst)⟩ := by
  cases rest with
  | nil => simp [Place.answerTo, Place.rootCount, beyond]
  | cons _ _ => rfl

theorem beyond_peers {size : Nat} (hp : p < size) (hp0 : p ≠ 0) : beyond p n (peers size) = n := by
  rw [beyond, if_pos (mem_peers.mpr ⟨by omega, hp⟩)]

theorem next_told {size peer : Nat} {rest : List Nat} (h : peer :: rest <:+ peers size) :
    peer < size ∧ peer ≠ 0 ∧ peer ∉ rest ∧ rest <:+ peers size := by
  have hpeer := mem_peers.mp (h.subset List.mem_cons_self)
  have hnodup : (peer :: rest).Nodup := h.sublist.nodup List.nodup_range'
  exact ⟨hpeer.2, by omega, (List.nodup_cons.mp hnodup).1, (List.suffix_cons _ _).trans h⟩

theorem next_answered {size peer : Nat} {payload : Payload} {replies : List Payload}
    {rest : List (Nat × Payload)} (hlength : replies.length = size)
    (h : (peer, payload) :: rest <:+ Place.outgoing size replies) :
    peer < size ∧ peer ≠ 0 ∧ peer ∉ rest.map Prod.fst ∧ rest <:+ Place.outgoing size replies ∧
      replies[peer]? = some payload := by
  obtain ⟨hpos, hlt, hreply⟩ := mem_outgoing (h.subset List.mem_cons_self)
  have hnodup : (((peer, payload) :: rest).map Prod.fst).Nodup := by
    refine (h.map Prod.fst).sublist.nodup ?_
    rw [map_fst_outgoing hlength]
    exact (List.reverse_perm _).nodup_iff.mpr List.nodup_range'
  rw [List.map_cons, List.nodup_cons] at hnodup
  exact ⟨hlt, by omega, hnodup.1, (List.suffix_cons _ _).trans h, hreply⟩

theorem rootCount_collectFrom {size : Nat} {ρ : Offer} {received : List (Except GroupError Payload)}
    {rest : List Nat} (hp : p ∈ peers size) :
    (Place.collectFrom size ρ received rest).rootCount p n = ⟨true, beyond p n rest, n⟩ := by
  cases rest with
  | cons _ _ => rfl
  | nil =>
    simp only [Place.collectFrom, Place.decide]
    split
    · simp [Place.rootCount, beyond]
    · rename_i replies h
      obtain ⟨-, -, -, hlength⟩ := outcome_eq_ok_iff.mp h
      rw [rootCount_answerTo, map_fst_outgoing hlength]
      simp [beyond, hp]

end Exchange

namespace Assembly

variable {C : Carrier} {J : Interface} {α : Type}

/-! ## The invariant -/

def Coupled (g : Roster) (base : Nat) (s : Assembly C J α) (l : Lines) (w : Nat → Station)
    (p : Nat) : Prop :=
  Coupling (s.Contribution base p) (s.Reply g base p)
    ((w 0).rootCount p (s.rank 0).results.length) ((w p).peerCount (s.rank p).results.length)
    (l.queue p 0) (l.queue 0 p)

structure InStep (g : Roster) (base : Nat) (s : Assembly C J α) (l : Lines) (w : Nat → Station) :
    Prop where
  standing : ∀ q < g.size, (s.rank q).At (g.member q) base (w q)
  isOpen : ∀ q < g.size, l.isOpen q = true ↔ w q ≠ .gone
  coupled : ∀ p < g.size, p ≠ 0 → s.Coupled g base l w p
  placed : ∀ q < g.size, ∀ place, w q = .within place →
    s.Placed g (s.rank q).results.length q place
  fates : ∀ q < g.size, ∀ i x, (s.rank q).results[i]? = some x → s.Fate g i q x
  left : ∀ q < g.size, w q = .gone → (s.rank q).entered.length = (s.rank q).results.length

variable {g : Roster} {base r p : Nat} {s s' : Assembly C J α} {l l' : Lines} {w : Nat → Station}
  {t' : C.State} {x' : Rank J α} {w' : Station}

theorem coupling_mono {root : RootCount} {peer : PeerCount} {up down : List Frame}
    (h : Coupling (s.Contribution base p) (s.Reply g base p) root peer up down)
    (hreach : Reaches g s s') :
    Coupling (s'.Contribution base p) (s'.Reply g base p) root peer up down :=
  h.mono (fun _ _ hf => Contribution.mono hf hreach) fun _ _ hf => Reply.mono hf hreach

theorem coupled_root (hp : p ≠ 0) : (s.put 0 t' x').Coupled g base l' (Function.update w 0 w') p ↔
    Coupling ((s.put 0 t' x').Contribution base p) ((s.put 0 t' x').Reply g base p)
      (w'.rootCount p x'.results.length) ((w p).peerCount (s.rank p).results.length)
      (l'.queue p 0) (l'.queue 0 p) := by
  rw [Coupled, put_rank, put_rank_ne hp, Function.update_self, Function.update_of_ne hp]

theorem coupled_peer (hr : r ≠ 0) : (s.put r t' x').Coupled g base l' (Function.update w r w') r ↔
    Coupling ((s.put r t' x').Contribution base r) ((s.put r t' x').Reply g base r)
      ((w 0).rootCount r (s.rank 0).results.length) (w'.peerCount x'.results.length)
      (l'.queue r 0) (l'.queue 0 r) := by
  rw [Coupled, put_rank, put_rank_ne hr.symm, Function.update_self, Function.update_of_ne hr.symm]

theorem Coupled.keep (h : s.Coupled g base l w p) (hp : p ≠ 0) (hreach : Reaches g s (s.put r t' x'))
    (hup : l'.queue p 0 = l.queue p 0) (hdown : l'.queue 0 p = l.queue 0 p)
    (hroot : r = 0 → w'.rootCount p x'.results.length =
      (w 0).rootCount p (s.rank 0).results.length)
    (hpeer : r = p → w'.peerCount x'.results.length = (w p).peerCount (s.rank p).results.length) :
    (s.put r t' x').Coupled g base l' (Function.update w r w') p := by
  have hmono := coupling_mono h hreach
  by_cases hr : r = 0
  · subst hr
    rw [coupled_root hp, hroot rfl, hup, hdown]
    exact hmono
  · by_cases hrp : r = p
    · subst hrp
      rw [coupled_peer hr, hpeer rfl, hup, hdown]
      exact hmono
    · rw [Coupled, put_rank_ne (Ne.symm hr), put_rank_ne (Ne.symm hrp),
        Function.update_of_ne (Ne.symm hr), Function.update_of_ne (Ne.symm hrp), hup, hdown]
      exact hmono

/-- A step of rank `r` keeps all ranks in step if it keeps them coupled and what is new about
rank `r` is right. -/
theorem InStep.put (h : InStep g base s l w) (hreach : Reaches g s (s.put r t' x'))
    (hat : x'.At (g.member r) base w')
    (hopen : ∀ q < g.size, l'.isOpen q = true ↔ Function.update w r w' q ≠ .gone)
    (hcoupled : ∀ p < g.size, p ≠ 0 →
      (s.put r t' x').Coupled g base l' (Function.update w r w') p)
    (hplaced : ∀ place, w' = .within place →
      (s.put r t' x').Placed g x'.results.length r place)
    (hfates : ∀ i x, x'.results[i]? = some x → (s.put r t' x').Fate g i r x)
    (hleft : w' = .gone → x'.entered.length = x'.results.length) :
    InStep g base (s.put r t' x') l' (Function.update w r w') := by
  constructor
  case standing => exact forall_put (P := fun q x w => x.At (g.member q) base w) w w' hat h.standing
  case isOpen => exact hopen
  case coupled => exact hcoupled
  case placed =>
    refine forall_put (P := fun q x w => ∀ place, w = .within place →
      (s.put r t' x').Placed g x.results.length q place) w w' hplaced fun q hq place hw => ?_
    exact (h.placed q hq place hw).mono hreach
  case fates =>
    refine forall_put (P := fun q x _ => ∀ i y, x.results[i]? = some y →
      (s.put r t' x').Fate g i q y) w w' hfates fun q hq i x hi => ?_
    exact (h.fates q hq i x hi).mono hreach
  case left =>
    exact forall_put (P := fun _ x w => w = .gone → x.entered.length = x.results.length) w w' hleft
      h.left

theorem InStep.fates_mono (h : InStep g base s l w) (hr : r < g.size)
    (hreach : Reaches g s (s.put r t' x')) (hresults : x'.results = (s.rank r).results) :
    ∀ i x, x'.results[i]? = some x → (s.put r t' x').Fate g i r x := by
  intro i x hi
  rw [hresults] at hi
  exact (h.fates r hr i x hi).mono hreach

theorem InStep.isOpen_update (h : InStep g base s l w) (hr : w r ≠ .gone) (hw' : w' ≠ .gone)
    (hopen : l'.isOpen = l.isOpen) :
    ∀ q < g.size, l'.isOpen q = true ↔ Function.update w r w' q ≠ .gone := by
  intro q hq
  rw [hopen, h.isOpen q hq]
  by_cases hqr : q = r
  · subst hqr
    simp [hr, hw']
  · rw [Function.update_of_ne hqr]

/-! ## Ranks that have left -/

theorem InStep.offers_of_gone (h : InStep g base s l w) (hp : p < g.size) (hw : w p = .gone)
    {i : Nat} (hi : (s.rank p).results.length ≤ i) : s.offers i p = none := by
  rw [offers, List.getElem?_eq_none]
  rw [h.left p hp hw]
  exact hi

theorem InStep.doomed_of_left (h : InStep g base s l w) (hp : p < g.size) (hw : w p = .gone)
    {i : Nat} (hi : (s.rank p).results.length ≤ i) : s.Doomed g i := by
  have hstands := (h.standing p hp).stands
  rw [hw] at hstands
  obtain ⟨result, hgone⟩ := hstands
  exact doomed_of_gone hp hgone (h.offers_of_gone hp hw hi)

theorem InStep.gone_of_closed (h : InStep g base s l w) (hp : p < g.size)
    (hclosed : l.isOpen p = false) : w p = .gone := by
  by_contra hhere
  rw [(h.isOpen p hp).mpr hhere] at hclosed
  cases hclosed

/-! ## Steps without frames -/

theorem InStep.still (h : InStep g base s l w) (hreach : Reaches g s (s.put r t' x'))
    (hat : x'.At (g.member r) base w') (hw : w r ≠ .gone) (hw' : w' ≠ .gone)
    (hroot : r = 0 → ∀ p < g.size, p ≠ 0 →
      w'.rootCount p x'.results.length = (w 0).rootCount p (s.rank 0).results.length)
    (hpeer : r ≠ 0 → w'.peerCount x'.results.length = (w r).peerCount (s.rank r).results.length)
    (hplaced : ∀ place, w' = .within place →
      (s.put r t' x').Placed g x'.results.length r place)
    (hfates : ∀ i x, x'.results[i]? = some x → (s.put r t' x').Fate g i r x) :
    InStep g base (s.put r t' x') l (Function.update w r w') := by
  refine h.put hreach hat (h.isOpen_update hw hw' rfl) ?_ hplaced hfates fun hgone =>
    absurd hgone hw'
  intro p hp hp0
  refine (h.coupled p hp hp0).keep hp0 hreach rfl rfl (fun hr => hroot hr p hp hp0) ?_
  rintro rfl
  exact hpeer hp0

/-! ## Calls -/

variable {place place' : Place} {ρ : Offer}

theorem InStep.talk (h : InStep g base s l w) (hr : r < g.size)
    (hreach : Reaches g s (s.put r t' x')) (hwr : w r = .within place)
    (hat : x'.At (g.member r) base (.within place')) (hresults : x'.results = (s.rank r).results)
    (hopen : l'.isOpen = l.isOpen)
    (hcoupled : ∀ p < g.size, p ≠ 0 →
      (s.put r t' x').Coupled g base l' (Function.update w r (.within place')) p)
    (hplaced : s.Placed g (s.rank r).results.length r place') :
    InStep g base (s.put r t' x') l' (Function.update w r (.within place')) := by
  refine h.put hreach hat (h.isOpen_update (by simp [hwr]) (by simp) hopen) hcoupled ?_
    (h.fates_mono hr hreach hresults) nofun
  rintro _ ⟨⟩
  rw [hresults]
  exact hplaced.mono hreach

theorem InStep.talkUp (h : InStep g base s l w) (hr : r < g.size) (hr0 : r ≠ 0)
    (hreach : Reaches g s (s.put r t' x')) (hwr : w r = .within place)
    (hat : x'.At (g.member r) base (.within place')) (hresults : x'.results = (s.rank r).results)
    (hopen : l'.isOpen = l.isOpen)
    (hothers : ∀ p ≠ r, l'.queue p 0 = l.queue p 0 ∧ l'.queue 0 p = l.queue 0 p)
    (hown : Coupling (s.Contribution base r) (s.Reply g base r)
      ((w 0).rootCount r (s.rank 0).results.length) (place'.peerCount (s.rank r).results.length)
      (l'.queue r 0) (l'.queue 0 r))
    (hplaced : s.Placed g (s.rank r).results.length r place') :
    InStep g base (s.put r t' x') l' (Function.update w r (.within place')) := by
  refine h.talk hr hreach hwr hat hresults hopen ?_ hplaced
  intro p hp hp0
  by_cases hpr : p = r
  · subst hpr
    rw [coupled_peer hp0, hresults]
    exact coupling_mono hown hreach
  · obtain ⟨hup, hdown⟩ := hothers p hpr
    exact (h.coupled p hp hp0).keep hp0 hreach hup hdown (fun hr => absurd hr hr0)
      fun hrp => absurd hrp.symm hpr

theorem InStep.talkDown (h : InStep g base s l w) (hsize : 0 < g.size)
    (hreach : Reaches g s (s.put 0 t' x')) (hwr : w 0 = .within place)
    (hat : x'.At (g.member 0) base (.within place')) (hresults : x'.results = (s.rank 0).results)
    (hopen : l'.isOpen = l.isOpen) (peer : Nat)
    (hothers : ∀ p < g.size, p ≠ 0 → p ≠ peer →
      l'.queue p 0 = l.queue p 0 ∧ l'.queue 0 p = l.queue 0 p ∧
      place'.rootCount p (s.rank 0).results.length = place.rootCount p (s.rank 0).results.length)
    (hown : Coupling (s.Contribution base peer) (s.Reply g base peer)
      (place'.rootCount peer (s.rank 0).results.length)
      ((w peer).peerCount (s.rank peer).results.length) (l'.queue peer 0) (l'.queue 0 peer))
    (hplaced : s.Placed g (s.rank 0).results.length 0 place') :
    InStep g base (s.put 0 t' x') l' (Function.update w 0 (.within place')) := by
  refine h.talk hsize hreach hwr hat hresults hopen ?_ hplaced
  intro p hp hp0
  by_cases hpp : p = peer
  · subst hpp
    rw [coupled_root hp0, hresults]
    exact coupling_mono hown hreach
  · obtain ⟨hup, hdown, hcount⟩ := hothers p hp hp0 hpp
    refine (h.coupled p hp hp0).keep hp0 hreach hup hdown (fun _ => ?_) fun hrp => absurd hrp.symm hp0
    rw [hresults, hwr]
    exact hcount

/-! ## The calls of a peer -/

section Up

variable (h : InStep g base s l w) (hr : r < g.size) (hr0 : r ≠ 0)
  (hreach : Reaches g s (s.put r t' x')) (hwr : w r = .within place)
  (hat : x'.At (g.member r) base (.within place')) (hresults : x'.results = (s.rank r).results)
  (hρ : s.offers (s.rank r).results.length r = some ρ)

include h hr hr0 hreach hwr hat hresults hρ

theorem InStep.contribute (hplace : place = .sending) (hplace' : place' = .awaiting)
    (hallows : l.Allows g.size r
      (.send 0 (ρ.frame (base + (s.rank r).results.length + 1))) (.ok ()) l') :
    InStep g base (s.put r t' x') l' (Function.update w r (.within place')) := by
  subst hplace hplace'
  have hcoupled := h.coupled r hr hr0
  rw [Coupled, hwr] at hcoupled
  cases hallows with
  | sent _ _ hpeer hopen =>
    have hroot : w 0 ≠ .gone := (h.isOpen 0 hpeer.1).mp hopen.2
    refine h.talkUp hr hr0 hreach hwr hat hresults rfl ?_ ?_ hr0
    · intro p hp
      exact ⟨Lines.queue_push_of_ne fun hq => hp hq.1, Lines.queue_push_of_ne fun hq => hr0 hq.1.symm⟩
    · rw [Lines.queue_push_self, Lines.queue_push_of_ne fun hq => hr0 hq.1.symm]
      exact hcoupled.contribute (Station.rootCount_here.mpr hroot) rfl rfl ⟨ρ, hρ, rfl⟩
  | lost _ _ hclosed =>
    have hroot : w 0 = .gone := h.gone_of_closed (by omega) hclosed
    have hgone : ¬ ((w 0).rootCount r (s.rank 0).results.length).here := by
      simp [Station.rootCount_here, hroot]
    refine h.talkUp hr hr0 hreach hwr hat hresults rfl (fun _ _ => ⟨rfl, rfl⟩) ?_ hr0
    exact hcoupled.giveUp hgone (fun _ => hcoupled.answered_le_of_idle hgone rfl rfl) _ _
      (Nat.le_refl _)

omit hρ in
theorem InStep.forsaken {e : GroupError} (hroot : w 0 = .gone)
    (hplace : (place.peerCount (s.rank r).results.length).taken = (s.rank r).results.length)
    (hplace' : place' = .finished (.error e))
    (howed : (s.rank 0).results.length ≤ (s.rank r).results.length) :
    InStep g base (s.put r t' x') l (Function.update w r (.within place')) := by
  subst hplace'
  have hcoupled := h.coupled r hr hr0
  rw [Coupled, hwr, hroot] at hcoupled
  refine h.talkUp hr hr0 hreach hwr hat hresults rfl (fun _ _ => ⟨rfl, rfl⟩) ?_
    (.inr ⟨h.doomed_of_left (by omega) hroot howed, e, rfl⟩)
  rw [hroot]
  have hover := hcoupled.giveUp nofun (fun _ => hplace.symm ▸ howed)
    ((s.rank r).results.length + 1) ((s.rank r).results.length + 1) (by rw [Station.peerCount, hplace]; omega)
  have hhere : (Station.peerCount (s.rank r).results.length (.within place)).here = true :=
    Station.peerCount_here.mpr nofun
  rw [hhere] at hover
  exact hover

omit hρ in
theorem InStep.unheard {e : GroupError} {f : Frame} (hplace : place = .sending)
    (hplace' : place' = .finished (.error e))
    (hallows : l.Allows g.size r (.send 0 f) (.error e) l') :
    InStep g base (s.put r t' x') l' (Function.update w r (.within place')) := by
  subst hplace
  have hcoupled := h.coupled r hr hr0
  rw [Coupled, hwr] at hcoupled
  have hsize : 0 < g.size := by omega
  have hown : l.isOpen r = true := (h.isOpen r hr).mpr (by simp [hwr])
  cases hallows with
  | unsent _ _ _ hclosed =>
    have hroot : w 0 = .gone := h.gone_of_closed hsize (by simpa [hsize, hr0.symm, hown] using hclosed)
    rw [hroot] at hcoupled
    exact h.forsaken hr hr0 hreach hwr hat hresults hroot rfl hplace'
      (hcoupled.answered_le_of_idle nofun rfl rfl)

theorem InStep.reply {a : Except GroupError Frame} (hplace : place = .awaiting)
    (hplace' : place' =
      .finished (Except.bind a (replied (base + (s.rank r).results.length + 1) ρ)))
    (hallows : l.Allows g.size r (.receive 0) a l') :
    InStep g base (s.put r t' x') l' (Function.update w r (.within place')) := by
  subst hplace hplace'
  have hcoupled := h.coupled r hr hr0
  rw [Coupled, hwr] at hcoupled
  have hsize : 0 < g.size := by omega
  have hown : l.isOpen r = true := (h.isOpen r hr).mpr (by simp [hwr])
  cases hallows with
  | received _ f _ _ hf =>
    obtain ⟨hreply, htaken⟩ := hcoupled.take rfl hf
    refine h.talkUp hr hr0 hreach hwr hat hresults rfl ?_ ?_ (fate_replied hr hr0 hρ hreply)
    · intro p hp
      exact ⟨Lines.queue_pop_of_ne fun hq => hr0 hq.2.symm, Lines.queue_pop_of_ne fun hq => hp hq.2⟩
    · rw [Lines.queue_pop_self, Lines.queue_pop_of_ne fun hq => hr0 hq.1]
      exact htaken
  | bereft _ e hclosed =>
    obtain ⟨hempty, hclosed⟩ : l.queue 0 r = [] ∧ l.isOpen 0 = false := by
      simpa [hsize, hr0.symm, hown] using hclosed
    have hroot : w 0 = .gone := h.gone_of_closed hsize hclosed
    rw [hempty, hroot] at hcoupled
    exact h.forsaken hr hr0 hreach hwr hat hresults hroot rfl rfl
      (hcoupled.answered_le_of_empty rfl)

end Up

/-! ## The calls of the root -/

theorem InStep.gone_of_unsent (h : InStep g base s l w) (hsize : 0 < g.size) (hwr : w 0 ≠ .gone)
    {peer : Nat} (hpeer : peer < g.size) (hpeer0 : peer ≠ 0) {f : Frame} {e : GroupError}
    (hallows : l.Allows g.size 0 (.send peer f) (.error e) l') : l' = l ∧ w peer = .gone := by
  have hown : l.isOpen 0 = true := (h.isOpen 0 hsize).mpr hwr
  cases hallows with
  | unsent _ _ _ hclosed =>
    exact ⟨rfl, h.gone_of_closed hpeer (by simpa [hpeer, hpeer0, hown] using hclosed)⟩

theorem InStep.not_unanswered (h : InStep g base s l w) (hsize : 0 < g.size) {replies : List Payload}
    {peer : Nat} {payload : Payload} {rest : List (Nat × Payload)} {f : Frame} {e : GroupError}
    (hwr : w 0 = .within (.answering replies peer payload rest)) :
    ¬ l.Allows g.size 0 (.send peer f) (.error e) l' := by
  intro hallows
  obtain ⟨-, hagreed, hsuffix⟩ := h.placed 0 hsize _ hwr
  obtain ⟨hpeer, hpeer0, -⟩ := next_answered hagreed.length_eq hsuffix
  obtain ⟨-, hgone⟩ := h.gone_of_unsent hsize (by simp [hwr]) hpeer hpeer0 hallows
  have howed := (h.coupled peer hpeer hpeer0).late (by simp [Station.rootCount_here, hwr])
    (by simp [Station.peerCount_here, hgone])
  have hcount : ((w 0).rootCount peer (s.rank 0).results.length).answered =
      (s.rank 0).results.length := by simp [hwr, Station.rootCount, Place.rootCount, beyond]
  rw [hcount, hgone] at howed
  exact (h.doomed_of_left hpeer hgone howed).not_agreed hagreed

section Down

variable (h : InStep g base s l w) (hsize : 0 < g.size)
  (hreach : Reaches g s (s.put 0 t' x')) (hwr : w 0 = .within place)
  (hat : x'.At (g.member 0) base (.within place')) (hresults : x'.results = (s.rank 0).results)

include h hsize hreach hwr hat hresults

theorem InStep.talkAlone (hcount : ∀ p < g.size, p ≠ 0 →
      place'.rootCount p (s.rank 0).results.length = place.rootCount p (s.rank 0).results.length)
    (hplaced : s.Placed g (s.rank 0).results.length 0 place') :
    InStep g base (s.put 0 t' x') l (Function.update w 0 (.within place')) := by
  refine h.talk hsize hreach hwr hat hresults rfl (fun p hp hp0 => ?_) hplaced
  refine (h.coupled p hp hp0).keep hp0 hreach rfl rfl (fun _ => ?_) fun hr => absurd hr.symm hp0
  rw [hresults, hwr]
  exact hcount p hp hp0

theorem InStep.heard (hρ : s.offers (s.rank 0).results.length 0 = some ρ)
    {received : List (Except GroupError Payload)} {peer : Nat} {rest : List Nat} {f : Frame}
    (hplace : place = .collecting received peer rest) (hpeer : peer < g.size) (hpeer0 : peer ≠ 0)
    (hlast : peer ∉ rest)
    (hcount : ∀ p < g.size, p ≠ 0 → place'.rootCount p (s.rank 0).results.length =
      ⟨true, beyond p (s.rank 0).results.length rest, (s.rank 0).results.length⟩)
    (hplaced : s.Found g (s.rank 0).results.length peer
      (checked peer (ρ.step (base + (s.rank 0).results.length + 1)) f) →
      s.Placed g (s.rank 0).results.length 0 place')
    (hf : (l.queue peer 0).head? = some f) :
    InStep g base (s.put 0 t' x') (l.pop peer 0) (Function.update w 0 (.within place')) := by
  subst hplace
  have hcoupled := h.coupled _ hpeer hpeer0
  rw [Coupled, hwr] at hcoupled
  obtain ⟨hcontribution, hcollected⟩ := hcoupled.collect rfl hf
  refine h.talkDown hsize hreach hwr hat hresults rfl peer ?_ ?_ ?_
  · intro p hp hp0 hne
    refine ⟨Lines.queue_pop_of_ne fun hq => hne hq.1, Lines.queue_pop_of_ne fun hq => hp0 hq.2, ?_⟩
    rw [hcount p hp hp0, Place.rootCount, beyond_cons_of_ne hne]
  · rw [hcount _ hpeer hpeer0, Lines.queue_pop_self,
      Lines.queue_pop_of_ne fun hq => hpeer0 hq.1.symm, beyond_cons_self hlast]
    exact hcollected
  · have hbeyond : beyond peer (s.rank 0).results.length (peer :: rest) =
        (s.rank 0).results.length := by simp [beyond]
    rw [Station.rootCount, Place.rootCount, hbeyond] at hcontribution
    exact hplaced (found_contribution hpeer hρ hcontribution)

theorem InStep.missed {received : List (Except GroupError Payload)} {peer : Nat} {rest : List Nat}
    {e : GroupError} (hplace : place = .collecting received peer rest) (hpeer : peer < g.size)
    (hpeer0 : peer ≠ 0) (hlast : peer ∉ rest)
    (hcount : ∀ p < g.size, p ≠ 0 → place'.rootCount p (s.rank 0).results.length =
      ⟨true, beyond p (s.rank 0).results.length rest, (s.rank 0).results.length⟩)
    (hplaced : s.Found g (s.rank 0).results.length peer (.error e) →
      s.Placed g (s.rank 0).results.length 0 place')
    (hempty : l.queue peer 0 = []) (hclosed : l.isOpen peer = false) :
    InStep g base (s.put 0 t' x') l (Function.update w 0 (.within place')) := by
  subst hplace
  have hcoupled := h.coupled _ hpeer hpeer0
  rw [Coupled, hwr] at hcoupled
  have hgone : w peer = .gone := h.gone_of_closed hpeer hclosed
  have hleft : ¬ ((w peer).peerCount (s.rank peer).results.length).here := by
    simp [Station.peerCount_here, hgone]
  refine h.talkDown hsize hreach hwr hat hresults rfl peer ?_ ?_ ?_
  · intro p hp hp0 hne
    refine ⟨rfl, rfl, ?_⟩
    rw [hcount p hp hp0, Place.rootCount, beyond_cons_of_ne hne]
  · rw [hcount _ hpeer hpeer0, beyond_cons_self hlast]
    exact hcoupled.miss rfl hleft hempty
  · have howed := hcoupled.late rfl hleft
    rw [hgone] at howed
    exact hplaced (.inr ⟨h.doomed_of_left hpeer hgone howed, e, rfl⟩)

theorem InStep.collect (hρ : s.offers (s.rank 0).results.length 0 = some ρ)
    {received : List (Except GroupError Payload)} {peer : Nat} {rest : List Nat}
    {a : Except GroupError Frame} (hplace : place = .collecting received peer rest)
    (hplace' : place' = .collectFrom g.size ρ (received ++
      [Except.bind a (checked peer (ρ.step (base + (s.rank 0).results.length + 1)))]) rest)
    (hallows : l.Allows g.size 0 (.receive peer) a l') :
    InStep g base (s.put 0 t' x') l' (Function.update w 0 (.within place')) := by
  obtain ⟨-, hpolled, hrest⟩ := h.placed 0 hsize _ (hplace ▸ hwr)
  obtain ⟨rfl, hlength, hrest⟩ := next_peer hrest
  have hpeer : received.length + 1 < g.size := by omega
  have hpeer0 : received.length + 1 ≠ 0 := by omega
  have hlast : received.length + 1 ∉ rest := by
    rw [hrest, List.mem_range'_1]
    omega
  have hcount : ∀ p < g.size, p ≠ 0 → place'.rootCount p (s.rank 0).results.length =
      ⟨true, beyond p (s.rank 0).results.length rest, (s.rank 0).results.length⟩ := by
    intro p hp hp0
    rw [hplace', rootCount_collectFrom (mem_peers.mpr ⟨by omega, hp⟩)]
  have hplaced := fun hx => hplace' ▸ placed_append hpolled hρ hpeer hrest hx
  cases hallows with
  | received _ f _ _ hf =>
    exact h.heard hsize hreach hwr hat hresults hρ hplace hpeer hpeer0 hlast hcount hplaced hf
  | bereft _ e hclosed =>
    have hown : l.isOpen 0 = true := (h.isOpen 0 hsize).mpr (by simp [hwr])
    obtain ⟨hempty, hclosed⟩ :
        l.queue (received.length + 1) 0 = [] ∧ l.isOpen (received.length + 1) = false := by
      simpa [hpeer, hown] using hclosed
    exact h.missed hsize hreach hwr hat hresults hplace hpeer hpeer0 hlast hcount hplaced hempty
      hclosed

theorem InStep.answered {peer : Nat} {rest : List Nat} (hpeer : peer < g.size) (hpeer0 : peer ≠ 0)
    (hlast : peer ∉ rest)
    (hcount : ∀ p, place.rootCount p (s.rank 0).results.length =
      ⟨true, (s.rank 0).results.length + 1, beyond p (s.rank 0).results.length (peer :: rest)⟩)
    (hcount' : ∀ p, place'.rootCount p (s.rank 0).results.length =
      ⟨true, (s.rank 0).results.length + 1, beyond p (s.rank 0).results.length rest⟩)
    (hplaced : s.Placed g (s.rank 0).results.length 0 place') {f : Frame}
    (hf : s.Reply g base peer (s.rank 0).results.length f) {a : Except GroupError Unit}
    (hallows : l.Allows g.size 0 (.send peer f) a l') :
    InStep g base (s.put 0 t' x') l' (Function.update w 0 (.within place')) := by
  have hcoupled := h.coupled _ hpeer hpeer0
  rw [Coupled, hwr, Station.rootCount, hcount] at hcoupled
  have hothers : ∀ p, p ≠ peer → place'.rootCount p (s.rank 0).results.length =
      place.rootCount p (s.rank 0).results.length := by
    intro p hne
    rw [hcount, hcount', beyond_cons_of_ne hne]
  have hbeyond : beyond peer (s.rank 0).results.length (peer :: rest) =
      (s.rank 0).results.length := by simp [beyond]
  have howed : beyond peer (s.rank 0).results.length (peer :: rest) <
      (s.rank 0).results.length + 1 := by omega
  -- A peer that has left needs no answer, whether or not the call says so.
  have hskip (hgone : w peer = .gone) :
      InStep g base (s.put 0 t' x') l (Function.update w 0 (.within place')) := by
    refine h.talkDown hsize hreach hwr hat hresults rfl peer
      (fun p _ _ hne => ⟨rfl, rfl, hothers p hne⟩) ?_ hplaced
    rw [hcount', beyond_cons_self hlast]
    exact hcoupled.skip rfl (by simp [Station.peerCount_here, hgone]) howed
  cases a with
  | ok _ =>
    cases hallows with
    | sent _ _ _ hopen =>
      have hhere : w peer ≠ .gone := (h.isOpen peer hpeer).mp hopen.2
      refine h.talkDown hsize hreach hwr hat hresults rfl peer ?_ ?_ hplaced
      · intro p _ hp0 hne
        exact ⟨Lines.queue_push_of_ne fun hq => hp0 hq.1,
          Lines.queue_push_of_ne fun hq => hne hq.2, hothers p hne⟩
      · rw [hcount', Lines.queue_push_self, Lines.queue_push_of_ne fun hq => hpeer0 hq.1,
          beyond_cons_self hlast]
        exact hcoupled.answer rfl (Station.peerCount_here.mpr hhere) howed (by rw [hbeyond]; exact hf)
    | lost _ _ hclosed => exact hskip (h.gone_of_closed hpeer hclosed)
  | error e =>
    obtain ⟨rfl, hgone⟩ := h.gone_of_unsent hsize (by simp [hwr]) hpeer hpeer0 hallows
    exact hskip hgone

end Down

end Assembly

end Lagmeter
