import Lagmeter.Proofs.Group.Carrier
import Lagmeter.Proofs.Star.Stream

/-!
# The star carries lines

What lies in a pipe of the star is the stream of the frames that lie in a queue of `Lines`, and a
connection that an end still holds is one whose end has not closed. An end that has given its
connection up because the other one closed misses nothing: no frame was left for it.

So the star answers what lines allow, as long as its ranks talk along its connections, send frames
that fit, and leave nothing unread when they find out that a peer has closed.
-/

namespace Lagmeter.Star

/-! ## Connections -/

/-- A connection joins these two ranks: one of them is the root. -/
structure Joined (size a b : Nat) : Prop where
  left : a < size
  right : b < size
  ne : a ≠ b
  root : a = 0 ∨ b = 0

theorem Joined.symm {size a b : Nat} (h : Joined size a b) : Joined size b a :=
  ⟨h.right, h.left, h.ne.symm, h.root.symm⟩

/-- The arrays of a star have room for every rank. -/
structure Fits (size : Nat) (s : Star) : Prop where
  size_eq : s.size = size
  up : s.up.size = size
  down : s.down.size = size
  rootHolds : s.rootHolds.size = size
  peerHolds : s.peerHolds.size = size

variable {size : Nat} {s : Star} {a b x y : Nat}

theorem fits_ofSize (size : Nat) : Fits size (ofSize size) := by
  constructor <;> simp [ofSize]

theorem getD_set {α : Type} {xs : Array α} {i : Nat} (hi : i < xs.size) (j : Nat) (v d : α) :
    (xs.setIfInBounds i v).getD j d = if j = i then v else xs.getD j d := by
  simp only [Array.getD_eq_getD_getElem?, Array.getElem?_setIfInBounds]
  by_cases hj : j = i
  · simp [hj, hi]
  · simp [hj, Ne.symm hj]

theorem outbox_eq (h : Joined size a b) : s.outbox a b = s.inbox b a := by
  unfold outbox inbox
  rcases h.root with rfl | rfl
  · rw [if_pos rfl, if_neg h.ne.symm]
  · rw [if_neg h.ne, if_pos rfl]

theorem setOutbox_eq (h : Joined size a b) (p : Pipe) : s.setOutbox a b p = s.setInbox b a p := by
  unfold setOutbox setInbox
  rcases h.root with rfl | rfl
  · rw [if_pos rfl, if_neg h.ne.symm]
  · rw [if_neg h.ne, if_pos rfl]

theorem Fits.setInbox (hs : Fits size s) (a b : Nat) (p : Pipe) : Fits size (s.setInbox a b p) := by
  unfold Star.setInbox
  split
  · exact ⟨hs.size_eq, by simp [hs.up], hs.down, hs.rootHolds, hs.peerHolds⟩
  · exact ⟨hs.size_eq, hs.up, by simp [hs.down], hs.rootHolds, hs.peerHolds⟩

theorem holds_setInbox (a b : Nat) (p : Pipe) : (s.setInbox a b p).holds x y = s.holds x y := by
  unfold Star.setInbox
  split <;> rfl

theorem inbox_setInbox (hs : Fits size s) (h : Joined size a b) (hxy : Joined size x y) (p : Pipe) :
    (s.setInbox a b p).inbox x y = if x = a ∧ y = b then p else s.inbox x y := by
  have hdown : a < s.down.size := hs.down ▸ h.left
  have hup : b < s.up.size := hs.up ▸ h.right
  have hab := h.ne
  have hxy' := hxy.ne
  unfold Star.setInbox inbox
  rcases h.root with rfl | rfl
  · rw [if_pos rfl]
    rcases hxy.root with rfl | rfl
    · simp only [getD_set hup, true_and, if_true]
    · simp only [hxy', false_and, if_false]
  · rw [if_neg hab]
    rcases hxy.root with rfl | rfl
    · rw [if_pos rfl, if_pos rfl, if_neg fun h => hab h.1.symm]
    · simp only [if_neg hxy', getD_set hdown, and_true]

theorem set_getD {α : Type} (xs : Array α) (i : Nat) (d : α) :
    xs.setIfInBounds i (xs.getD i d) = xs := by
  refine Array.ext (by simp) fun j hj hj' => ?_
  rw [Array.getElem_setIfInBounds hj']
  split
  case isTrue hij =>
    subst hij
    simp [Array.getD_eq_getD_getElem?, hj']
  case isFalse => rfl

theorem setInbox_inbox (s : Star) (a b : Nat) : s.setInbox a b (s.inbox a b) = s := by
  unfold Star.setInbox inbox
  split
  · rw [set_getD]
  · rw [set_getD]

theorem drop_eq (h : Joined size a b) : s.drop a b =
    if a = 0 then { s.setInbox b a { s.inbox b a with ended := true } with
      rootHolds := s.rootHolds.setIfInBounds b false }
    else { s.setInbox b a { s.inbox b a with ended := true } with
      peerHolds := s.peerHolds.setIfInBounds a false } := by
  unfold drop
  rw [outbox_eq h, setOutbox_eq h]
  unfold Star.setInbox
  split <;> split <;> rfl

theorem Fits.drop (hs : Fits size s) (h : Joined size a b) : Fits size (s.drop a b) := by
  have hset := hs.setInbox b a { s.inbox b a with ended := true }
  rw [drop_eq h]
  split
  · exact ⟨hset.size_eq, hset.up, hset.down, by simp [hs.rootHolds], hset.peerHolds⟩
  · exact ⟨hset.size_eq, hset.up, hset.down, hset.rootHolds, by simp [hs.peerHolds]⟩

theorem inbox_drop (hs : Fits size s) (h : Joined size a b) (hxy : Joined size x y) :
    (s.drop a b).inbox x y =
      if x = b ∧ y = a then { s.inbox b a with ended := true } else s.inbox x y := by
  have hset := inbox_setInbox hs h.symm hxy { s.inbox b a with ended := true }
  rw [← hset, drop_eq h]
  split <;> rfl

theorem holds_drop (hs : Fits size s) (h : Joined size a b) (hxy : Joined size x y) :
    (s.drop a b).holds x y = if x = a ∧ y = b then false else s.holds x y := by
  have hpeer : a < s.peerHolds.size := hs.peerHolds ▸ h.left
  have hroot : b < s.rootHolds.size := hs.rootHolds ▸ h.right
  have hheld := holds_setInbox (s := s) (x := x) (y := y) b a { s.inbox b a with ended := true }
  have hab := h.ne
  have hxy' := hxy.ne
  rw [drop_eq h]
  unfold holds at hheld ⊢
  rcases h.root with rfl | rfl
  · rw [if_pos rfl]
    rcases hxy.root with rfl | rfl
    · simp only [getD_set hroot, true_and, if_true]
    · simp only [hxy', false_and, if_false] at hheld ⊢
      exact hheld
  · rw [if_neg hab]
    rcases hxy.root with rfl | rfl
    · simp only [if_true] at hheld ⊢
      rw [hheld, if_neg fun h => hab h.1.symm]
    · simp only [if_neg hxy', getD_set hpeer, and_true, decide_true, Bool.true_and]

/-! ## Closing -/

theorem fold_drop {ps : List Nat} (hs : Fits size s) (hps : ∀ p ∈ ps, Joined size a p) :
    Fits size (ps.foldl (fun s p => s.drop a p) s) ∧ ∀ x y, Joined size x y →
      ((ps.foldl (fun s p => s.drop a p) s).holds x y =
        if x = a ∧ y ∈ ps then false else s.holds x y) ∧
      (ps.foldl (fun s p => s.drop a p) s).inbox x y =
        if y = a ∧ x ∈ ps then { s.inbox x y with ended := true } else s.inbox x y := by
  induction ps generalizing s with
  | nil => exact ⟨hs, fun x y _ => by simp⟩
  | cons p ps ih =>
    have hp : Joined size a p := hps p List.mem_cons_self
    obtain ⟨hfits, hall⟩ := ih (hs.drop hp) fun q hq => hps q (List.mem_cons_of_mem _ hq)
    refine ⟨hfits, fun x y hxy => ?_⟩
    obtain ⟨hholds, hinbox⟩ := hall x y hxy
    rw [List.foldl_cons, hholds, hinbox, holds_drop hs hp hxy, inbox_drop hs hp hxy]
    constructor
    · by_cases hx : x = a <;> by_cases hy : y = p <;> simp [hx, hy]
    · by_cases hx : x = p
      · by_cases hy : y = a
        · subst hx hy
          by_cases hmem : x ∈ ps <;> simp [hmem]
        · simp [hy]
      · simp [hx]

theorem mem_neighbours (hs : Fits size s) (ha : a < size) (hsize : 1 < size) :
    b ∈ s.neighbours a ↔ Joined size a b := by
  unfold neighbours
  rw [hs.size_eq]
  split
  case isTrue h0 =>
    subst h0
    rw [List.mem_range'_1]
    exact ⟨fun h => ⟨ha, by omega, by omega, .inl rfl⟩, fun h => by have := h.right; have := h.ne; omega⟩
  case isFalse h0 =>
    rw [List.mem_singleton]
    refine ⟨?_, fun h => h.root.resolve_left h0⟩
    rintro rfl
    exact ⟨ha, by omega, h0, .inr rfl⟩

theorem close_one (hs : Fits 1 s) (ha : a < 1) : s.close a = s := by
  obtain rfl : a = 0 := by omega
  have hnone : s.neighbours 0 = [] := by
    rw [neighbours, if_pos rfl, hs.size_eq]
    rfl
  rw [close, hnone]
  rfl

theorem closed (hs : Fits size s) (ha : a < size) : Fits size (s.close a) ∧ ∀ x y, Joined size x y →
    (s.close a).holds x y = (if x = a then false else s.holds x y) ∧
    (s.close a).inbox x y =
      if y = a ∧ s.holds a x = true then { s.inbox x y with ended := true } else s.inbox x y := by
  by_cases hsize : 1 < size
  · have hmem := fun b => mem_neighbours (b := b) hs ha hsize
    have hps : ∀ p ∈ (s.neighbours a).filter (s.holds a), Joined size a p :=
      fun p hp => (hmem p).mp (List.mem_filter.mp hp).1
    obtain ⟨hfits, hall⟩ := fold_drop hs hps
    refine ⟨hfits, fun x y hxy => ?_⟩
    obtain ⟨hholds, hinbox⟩ := hall x y hxy
    unfold close
    rw [hholds, hinbox]
    constructor
    · by_cases hx : x = a
      · subst hx
        have hy : y ∈ s.neighbours x := (hmem y).mpr hxy
        cases hheld : s.holds x y <;> simp [List.mem_filter, hy, hheld]
      · simp [hx]
    · by_cases hy : y = a
      · subst hy
        have hx : x ∈ s.neighbours y := (hmem x).mpr hxy.symm
        simp [List.mem_filter, hx]
      · simp [hy]
  · have hone : size = 1 := by omega
    subst hone
    rw [close_one hs ha]
    refine ⟨hs, fun x y hxy => ?_⟩
    have hx := hxy.left
    have hy := hxy.right
    exact absurd (show x = y by omega) hxy.ne

/-! ## Lines -/

/-- What holds of rank `a`'s end of its connection to rank `b`. -/
structure End (s : Star) (l : Lines) (a b : Nat) : Prop where
  held : s.holds a b = true → l.isOpen a = true ∧
    s.inbox a b = ⟨stream (l.queue b a), !l.isOpen b⟩ ∧ s.holds b a = l.isOpen b
  given : s.holds a b = false → l.isOpen a = true → l.isOpen b = false ∧ l.queue b a = []

structure Carries (size : Nat) (s : Star) (l : Lines) : Prop where
  fits : Fits size s
  ends : ∀ {a b}, Joined size a b → End s l a b
  portable : ∀ {a b}, Joined size a b → ∀ f ∈ l.queue a b, Portable f

variable {l : Lines} {f : Frame}

theorem carries_ofSize (hl : l.Fresh size) : Carries size (ofSize size) l where
  fits := fits_ofSize size
  ends {a b} h := by
    have hqueue := (hl b h.right).2 a h.left
    have hholds : ∀ x y, Joined size x y → (ofSize size).holds x y = true := by
      intro x y hxy
      have hx := hxy.left
      have hy := hxy.right
      rcases hxy.root with rfl | rfl <;> simp [holds, ofSize, Array.getD_eq_getD_getElem?, hx, hy]
    have hinbox : (ofSize size).inbox a b = {} := by
      have ha := h.left
      have hb := h.right
      unfold inbox
      split <;> simp [ofSize, Array.getD_eq_getD_getElem?, ha, hb]
    constructor
    · intro _
      rw [hholds b a h.symm, (hl b h.right).1, hqueue, hinbox]
      exact ⟨(hl a h.left).1, rfl, rfl⟩
    · intro hnot
      rw [hholds a b h] at hnot
      cases hnot
  portable {a b} h f hf := by
    rw [(hl a h.left).2 b h.right] at hf
    cases hf

/-! ## Every call -/

section Calls

variable (h : Carries size s l)

include h

theorem Carries.push (hab : Joined size a b) (hheld : s.holds b a = true) (hf : Portable f) :
    Carries size (s.setOutbox a b { s.outbox a b with octets := (s.outbox a b).octets ++ packed f })
      (l.push a b f) := by
  rw [setOutbox_eq hab, outbox_eq hab]
  constructor
  case fits => exact h.fits.setInbox b a _
  case ends =>
    intro x y hxy
    have hend := h.ends hxy
    constructor
    · rw [holds_setInbox, holds_setInbox, inbox_setInbox h.fits hab.symm hxy]
      intro hx
      obtain ⟨hopen, hinbox, hother⟩ := hend.held hx
      refine ⟨hopen, ?_, hother⟩
      by_cases hxy' : x = b ∧ y = a
      · obtain ⟨rfl, rfl⟩ := hxy'
        rw [if_pos ⟨rfl, rfl⟩, hinbox, Lines.queue_push_self, stream_concat]
        rfl
      · rw [if_neg hxy', hinbox, Lines.queue_push_of_ne fun hq => hxy' hq.symm]
        rfl
    · rw [holds_setInbox]
      intro hx hopen
      rw [Lines.queue_push_of_ne]
      · exact hend.given hx hopen
      · rintro ⟨rfl, rfl⟩
        rw [hheld] at hx
        cases hx
  case portable =>
    intro x y hxy f' hf'
    simp only [Lines.push] at hf'
    split at hf'
    · rcases List.mem_append.mp hf' with hold | hnew
      · exact h.portable hxy f' hold
      · rw [List.mem_singleton.mp hnew]
        exact hf
    · exact h.portable hxy f' hf'

theorem Carries.pop (hab : Joined size a b) (hheld : s.holds a b = true) {fs : List Frame}
    (hq : l.queue b a = f :: fs) :
    Carries size (s.setInbox a b { s.inbox a b with octets := stream fs }) (l.pop b a) := by
  constructor
  case fits => exact h.fits.setInbox a b _
  case ends =>
    intro x y hxy
    have hend := h.ends hxy
    constructor
    · rw [holds_setInbox, holds_setInbox, inbox_setInbox h.fits hab hxy]
      intro hx
      obtain ⟨hopen, hinbox, hother⟩ := hend.held hx
      refine ⟨hopen, ?_, hother⟩
      by_cases hxy' : x = a ∧ y = b
      · obtain ⟨rfl, rfl⟩ := hxy'
        rw [if_pos ⟨rfl, rfl⟩, hinbox, Lines.queue_pop_self, hq]
        rfl
      · rw [if_neg hxy', hinbox, Lines.queue_pop_of_ne fun hq => hxy' hq.symm]
        rfl
    · rw [holds_setInbox]
      intro hx hopen
      rw [Lines.queue_pop_of_ne]
      · exact hend.given hx hopen
      · rintro ⟨rfl, rfl⟩
        rw [hheld] at hx
        cases hx
  case portable =>
    intro x y hxy f' hf'
    simp only [Lines.pop] at hf'
    split at hf'
    · exact h.portable hxy f' (List.mem_of_mem_tail hf')
    · exact h.portable hxy f' hf'

theorem Carries.drop (hab : Joined size a b) (hclosed : l.isOpen b = false)
    (hq : l.queue b a = []) : Carries size (s.drop a b) l := by
  constructor
  case fits => exact h.fits.drop hab
  case portable => exact h.portable
  case ends =>
    intro x y hxy
    have hend := h.ends hxy
    constructor
    · rw [holds_drop h.fits hab hxy, holds_drop h.fits hab hxy.symm, inbox_drop h.fits hab hxy]
      intro hx
      have hne : ¬ (x = a ∧ y = b) := fun heq => by simp [heq] at hx
      rw [if_neg hne] at hx
      have hback : ¬ (x = b ∧ y = a) := by
        rintro ⟨rfl, rfl⟩
        rw [(hend.held hx).1] at hclosed
        cases hclosed
      rw [if_neg hback, if_neg fun h => hback h.symm]
      exact hend.held hx
    · rw [holds_drop h.fits hab hxy]
      by_cases heq : x = a ∧ y = b
      · obtain ⟨rfl, rfl⟩ := heq
        exact fun _ _ => ⟨hclosed, hq⟩
      · rw [if_neg heq]
        exact hend.given

theorem Carries.close (ha : a < size) : Carries size (s.close a) (l.shut a) := by
  obtain ⟨hfits, hall⟩ := closed h.fits ha
  constructor
  case fits => exact hfits
  case portable => exact h.portable
  case ends =>
    intro x y hxy
    have hend := h.ends hxy
    obtain ⟨hholds, hinbox⟩ := hall x y hxy
    constructor
    · rw [hholds, hinbox, (hall y x hxy.symm).1]
      intro hx
      have hxa : x ≠ a := by
        rintro rfl
        rw [if_pos rfl] at hx
        cases hx
      rw [if_neg hxa] at hx
      obtain ⟨hopen, hpipe, hother⟩ := hend.held hx
      simp only [Lines.shut, if_neg hxa]
      refine ⟨hopen, ?_, ?_⟩
      · by_cases hy : y = a
        · subst hy
          rw [if_pos rfl, hpipe, hother]
          cases hyopen : l.isOpen y <;> simp
        · simp only [hy, false_and, if_false]
          exact hpipe
      · split
        · rfl
        · exact hother
    · rw [hholds]
      intro hx hopen
      have hxa : x ≠ a := by
        rintro rfl
        simp [Lines.shut] at hopen
      rw [if_neg hxa] at hx
      simp only [Lines.shut, if_neg hxa] at hopen ⊢
      obtain ⟨hyclosed, hempty⟩ := hend.given hx hopen
      refine ⟨?_, hempty⟩
      split
      · rfl
      · exact hyclosed

end Calls

/-- What the star answers to a call of a rank. Octets for an end that is given up may be taken and never
arrive. -/
inductive Answers (s : Star) (rank : Nat) : (call : LinkCall) → call.Answer → Star → Prop where
  | performed (call : LinkCall) (a : call.Answer) (s' : Star) (raised : List Signal)
      (h : s.perform rank call = .answered a s' raised) : Answers s rank call a s'
  | swallowed (peer : Nat) (f : Frame) (hpeer : s.checkPeer rank peer = .ok ())
      (hwidth : f.width ≤ maxFrame) (hheld : s.holds rank peer = true)
      (hgone : s.holds peer rank = false) : Answers s rank (.send peer f) (.ok ()) s

abbrev carrier : Carrier := ⟨Star, Answers⟩

/-- A call that the star answers as lines do: before it sends to a peer that has closed, a rank must have
read all from it. -/
def Orderly (size : Nat) (l : Lines) (rank : Nat) : LinkCall → Prop
  | .send peer f => l.isOpen rank = true → Joined size rank peer ∧ Portable f ∧
      (l.isOpen peer = false → l.queue peer rank = [])
  | .receive peer => l.isOpen rank = true → Joined size rank peer
  | .close | .leave | .log _ => True

/-- The errors that such a call can have. -/
def Usual : (call : LinkCall) → call.Answer → Prop
  | .send peer _, .error e | .receive peer, .error e =>
      e = .disconnected peer ∨ e = .transport "Broken pipe (os error 32)"
  | _, _ => True

variable {rank peer : Nat} {s' : Star}

theorem checkPeer_eq_ok_iff (hs : Fits size s) :
    s.checkPeer rank peer = .ok () ↔ peer < size ∧ peer ≠ rank := by
  unfold checkPeer
  rw [hs.size_eq]
  split
  case isTrue h =>
    simp only [reduceCtorEq, false_iff]
    omega
  case isFalse h =>
    simp only [true_iff]
    omega

theorem Joined.checkPeer (h : Joined size rank peer) (hs : Fits size s) :
    s.checkPeer rank peer = .ok () :=
  (checkPeer_eq_ok_iff hs).mpr ⟨h.right, h.ne.symm⟩

/-! ## Ranks that have closed -/

theorem Carries.not_holds (h : Carries size s l) (hr : rank < size) (hclosed : l.isOpen rank = false)
    (hpeer : s.checkPeer rank peer = .ok ()) : s.holds rank peer = false := by
  obtain ⟨hlt, hne⟩ := (checkPeer_eq_ok_iff h.fits).mp hpeer
  by_cases hroot : rank = 0 ∨ peer = 0
  · rw [← Bool.not_eq_true]
    intro hheld
    have hopen := ((h.ends ⟨hr, hlt, hne.symm, hroot⟩).held hheld).1
    rw [hclosed] at hopen
    cases hopen
  · rw [not_or] at hroot
    simp [holds, hroot]

theorem Carries.send_of_closed (h : Carries size s l) (hr : rank < size)
    (hclosed : l.isOpen rank = false) (peer : Nat) (f : Frame) :
    ∃ e, s.send rank peer f = (.error e, s) := by
  cases hpeer : s.checkPeer rank peer with
  | error e => exact ⟨e, by simp only [Star.send, hpeer]⟩
  | ok _ => exact ⟨.disconnected peer, by simp [Star.send, hpeer, h.not_holds hr hclosed hpeer]⟩

theorem Carries.receive_of_closed (h : Carries size s l) (hr : rank < size)
    (hclosed : l.isOpen rank = false) (peer : Nat) :
    ∃ e, s.receive rank peer = some (.error e, s) := by
  cases hpeer : s.checkPeer rank peer with
  | error e => exact ⟨e, by simp only [Star.receive, hpeer]⟩
  | ok _ =>
    exact ⟨.disconnected peer, by simp [Star.receive, hpeer, h.not_holds hr hclosed hpeer]⟩

/-! ## Ranks that are there -/

section Open

variable (h : Carries size s l) (hjoined : Joined size rank peer) (hopen : l.isOpen rank = true)

include h hjoined hopen

theorem Carries.send {answer : Except GroupError Unit} (hf : Portable f)
    (hread : l.isOpen peer = false → l.queue peer rank = [])
    (ha : s.send rank peer f = (answer, s')) : ∃ l', l.Allows size rank (.send peer f) answer l' ∧
      Carries size s' l' ∧ Usual (.send peer f) answer := by
  have hpeer : peer < size ∧ peer ≠ rank := ⟨hjoined.right, hjoined.ne.symm⟩
  have hend := h.ends hjoined
  simp only [Star.send, hjoined.checkPeer h.fits] at ha
  cases hheld : s.holds rank peer with
  | false =>
    simp only [hheld, Bool.not_false, if_true, Prod.mk.injEq] at ha
    obtain ⟨rfl, rfl⟩ := ha
    exact ⟨l, .unsent peer f _ (.inr (.inr (hend.given hheld hopen).1)), h, .inl rfl⟩
  | true =>
    obtain ⟨-, -, hother⟩ := hend.held hheld
    simp only [hheld, Bool.not_true, Bool.false_eq_true, if_false] at ha
    cases hthere : s.holds peer rank with
    | true =>
      rw [hthere, Bool.not_true, write_portable hf] at ha
      obtain ⟨rfl, rfl⟩ := Prod.mk.inj ha
      have hopen' : l.isOpen peer = true := hother.symm.trans hthere
      exact ⟨_, .sent peer f hpeer ⟨hopen, hopen'⟩, h.push hjoined hthere hf, trivial⟩
    | false =>
      have hclosed : l.isOpen peer = false := hother.symm.trans hthere
      have hwrite : write true (s.outbox rank peer) f =
          .error (.transport "Broken pipe (os error 32)") := by
        rw [write, if_neg (Nat.not_lt.mpr hf.width), if_pos rfl]
      rw [hthere, Bool.not_false, hwrite] at ha
      obtain ⟨rfl, rfl⟩ := Prod.mk.inj ha
      exact ⟨l, .unsent peer f _ (.inr (.inr hclosed)), h.drop hjoined hclosed (hread hclosed),
        .inr rfl⟩

theorem Carries.receive {answer : Except GroupError Frame}
    (ha : s.receive rank peer = some (answer, s')) :
    ∃ l', l.Allows size rank (.receive peer) answer l' ∧ Carries size s' l' ∧
      Usual (.receive peer) answer := by
  have hpeer : peer < size ∧ peer ≠ rank := ⟨hjoined.right, hjoined.ne.symm⟩
  have hend := h.ends hjoined
  simp only [Star.receive, hjoined.checkPeer h.fits] at ha
  cases hheld : s.holds rank peer with
  | false =>
    simp only [hheld, Bool.not_false, if_true, Option.some.injEq, Prod.mk.injEq] at ha
    obtain ⟨rfl, rfl⟩ := ha
    obtain ⟨hclosed, hempty⟩ := hend.given hheld hopen
    exact ⟨l, .bereft peer _ (.inr (.inr ⟨hempty, hclosed⟩)), h, .inl rfl⟩
  | true =>
    obtain ⟨-, hinbox, -⟩ := hend.held hheld
    simp only [hheld, Bool.not_true, Bool.false_eq_true, if_false] at ha
    cases hq : l.queue peer rank with
    | cons f fs =>
      have hf : Portable f := h.portable hjoined.symm f (hq ▸ List.mem_cons_self)
      have hpop := h.pop hjoined hheld hq
      rw [hinbox] at hpop
      rw [hinbox, hq, stream_cons, read_packed hf] at ha
      obtain ⟨rfl, rfl⟩ := Prod.mk.inj (Option.some.inj ha)
      exact ⟨_, .received peer f hpeer hopen (by rw [hq]; rfl), hpop, trivial⟩
    | nil =>
      rw [hinbox, hq] at ha
      cases hopen' : l.isOpen peer with
      | true =>
        rw [hopen'] at ha
        cases ha
      | false =>
        have hsame : s.setInbox rank peer ⟨[], true⟩ = s := by
          have hself := setInbox_inbox s rank peer
          rwa [hinbox, hq, hopen'] at hself
        rw [hopen'] at ha
        obtain ⟨rfl, rfl⟩ := Prod.mk.inj (Option.some.inj ha)
        refine ⟨l, .bereft peer _ (.inr (.inr ⟨hq, hopen'⟩)), ?_, .inl rfl⟩
        simp only [if_true]
        rw [hsame]
        exact h.drop hjoined hopen' hq

/-- The star lets a rank wait only where lines do. -/
theorem Carries.not_allows_of_wait (hreceive : s.receive rank peer = none)
    {answer : Except GroupError Frame} {l' : Lines} :
    ¬ l.Allows size rank (.receive peer) answer l' := by
  have hend := h.ends hjoined
  simp only [Star.receive, hjoined.checkPeer h.fits] at hreceive
  cases hheld : s.holds rank peer with
  | false => simp [hheld] at hreceive
  | true =>
    obtain ⟨-, hinbox, -⟩ := hend.held hheld
    simp only [hheld, Bool.not_true, Bool.false_eq_true, if_false, hinbox] at hreceive
    cases hq : l.queue peer rank with
    | cons f fs =>
      rw [hq, stream_cons, read_packed (h.portable hjoined.symm f (hq ▸ List.mem_cons_self))]
        at hreceive
      cases hreceive
    | nil =>
      cases hopen' : l.isOpen peer with
      | false =>
        rw [hq, hopen'] at hreceive
        cases hreceive
      | true =>
        intro ha
        cases ha with
        | received _ f _ _ hf => simp [hq] at hf
        | bereft _ e hwhy =>
          rcases hwhy with hwhy | hwhy | ⟨-, hwhy⟩
          · exact hwhy ⟨hjoined.right, hjoined.ne.symm⟩
          · rw [hopen] at hwhy
            cases hwhy
          · rw [hopen'] at hwhy
            cases hwhy

end Open

/-! ## All calls -/

theorem Carries.sound (h : Carries size s l) (hr : rank < size) {call : LinkCall}
    (horderly : Orderly size l rank call) {answer : call.Answer}
    (ha : carrier.Answers s rank call answer s') : ∃ l', l.Allows size rank call answer l' ∧
      Carries size s' l' ∧ (l.isOpen rank = true → Usual call answer) := by
  cases ha with
  | swallowed peer f hpeer hwidth hheld hgone =>
    cases hopen : l.isOpen rank with
    | false =>
      rw [h.not_holds hr hopen hpeer] at hheld
      cases hheld
    | true =>
      have hother := ((h.ends (horderly hopen).1).held hheld).2.2
      exact ⟨l, .lost peer f (hother.symm.trans hgone), h, fun _ => trivial⟩
  | performed _ _ _ raised hperform =>
    cases call with
    | close =>
      cases hperform
      exact ⟨_, .closed _, h.close hr, fun _ => trivial⟩
    | leave =>
      cases hperform
      exact ⟨_, .left, h.close hr, fun _ => trivial⟩
    | log event =>
      cases hperform
      exact ⟨_, .told event, h, fun _ => trivial⟩
    | send peer f =>
      cases hopen : l.isOpen rank with
      | false =>
        obtain ⟨e, he⟩ := h.send_of_closed hr hopen peer f
        simp only [perform, he] at hperform
        cases hperform
        exact ⟨l, .unsent peer f e (.inr (.inl hopen)), h, nofun⟩
      | true =>
        cases hperform
        obtain ⟨hjoined, hf, hread⟩ := horderly hopen
        obtain ⟨l', hallows, hcarries, husual⟩ := h.send hjoined hopen hf hread rfl
        exact ⟨l', hallows, hcarries, fun _ => husual⟩
    | receive peer =>
      cases hreceive : s.receive rank peer with
      | none => simp [perform, hreceive] at hperform
      | some r =>
        simp only [perform, hreceive] at hperform
        cases hperform
        cases hopen : l.isOpen rank with
        | false =>
          obtain ⟨e, he⟩ := h.receive_of_closed hr hopen peer
          rw [he] at hreceive
          cases hreceive
          exact ⟨l, .bereft peer e (.inr (.inl hopen)), h, nofun⟩
        | true =>
          obtain ⟨l', hallows, hcarries, husual⟩ := h.receive (horderly hopen) hopen hreceive
          exact ⟨l', hallows, hcarries, fun _ => husual⟩

theorem Carries.live (h : Carries size s l) (hr : rank < size) {call : LinkCall}
    (horderly : Orderly size l rank call) {answer : call.Answer} {l' : Lines}
    (ha : l.Allows size rank call answer l') : ∃ answer' s', carrier.Answers s rank call answer' s' := by
  cases call with
  | send peer f => exact ⟨_, _, .performed _ _ _ _ rfl⟩
  | close => exact ⟨_, _, .performed _ _ _ _ rfl⟩
  | leave => exact ⟨_, _, .performed _ _ _ _ rfl⟩
  | log event => exact ⟨_, _, .performed _ _ _ _ rfl⟩
  | receive peer =>
    cases hreceive : s.receive rank peer with
    | some r =>
      refine ⟨r.1, r.2, .performed _ _ _ [.arrival peer rank] ?_⟩
      simp [perform, hreceive]
    | none =>
      cases hopen : l.isOpen rank with
      | false =>
        obtain ⟨e, he⟩ := h.receive_of_closed hr hopen peer
        rw [he] at hreceive
        cases hreceive
      | true => exact absurd ha (h.not_allows_of_wait (horderly hopen) hopen hreceive)

end Lagmeter.Star
