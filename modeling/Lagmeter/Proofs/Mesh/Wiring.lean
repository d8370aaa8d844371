import Lagmeter.Proofs.Mesh.Traffic
import Mathlib.Data.List.ProdSigma

/-!
# A mesh of channels

A mesh can be wired out of channels with one sender and one receiver each. There is a channel from
every rank to every other, and each rank has two tables: the channels it sends on, and those it
receives from. A rank that closes empties its tables. Then a channel has lost an end: without its
receiver it takes no frame and what was in it is gone, without its sender it still gives what was in
it. Such a wiring answers all calls as the mesh does.
-/

namespace Lagmeter.Mesh

/-- A channel, with the frames in it and which of its ends are there. -/
structure Conduit where
  frames : List Frame
  hasSender : Bool
  hasReceiver : Bool

/-- Channels by number, of which `made` are made, and the tables of all ranks. -/
structure Wiring where
  size : Nat
  made : Nat
  conduit : Nat → Conduit
  /-- `outgoing a b` leads from `a` to `b`, in the table of `a`. -/
  outgoing : (owner peer : Nat) → Option Nat
  /-- `incoming b a` leads from `a` to `b`, in the table of `b`. -/
  incoming : (owner peer : Nat) → Option Nat

namespace Wiring

/-! ## How a group is wired -/

def bare (size : Nat) : Wiring :=
  ⟨size, 0, fun _ => ⟨[], false, false⟩, fun _ _ => none, fun _ _ => none⟩

/-- Enters a channel into a table. -/
def enter (table : Nat → Nat → Option Nat) (owner peer number : Nat) : Nat → Nat → Option Nat :=
  fun a b => if a = owner ∧ b = peer then some number else table a b

/-- A new channel from one rank to another. A rank has none to itself. -/
def connect (w : Wiring) (sender receiver : Nat) : Wiring :=
  if sender = receiver then w
  else
    { w with
      made := w.made + 1
      conduit := fun k => if k = w.made then ⟨[], true, true⟩ else w.conduit k
      outgoing := enter w.outgoing sender receiver w.made
      incoming := enter w.incoming receiver sender w.made }

def ofSize (size : Nat) : Wiring :=
  (List.range size).foldl (fun w sender =>
    (List.range size).foldl (fun w receiver => w.connect sender receiver) w) (bare size)

/-! ## Calls -/

def put (w : Wiring) (number : Nat) (frames : List Frame) : Wiring :=
  { w with conduit := fun k => if k = number then { w.conduit k with frames := frames } else w.conduit k }

/-- One of the entries is this channel. -/
def holds (size : Nat) (entries : Nat → Option Nat) (number : Nat) : Bool :=
  (List.range size).any fun peer => entries peer == some number

/-- A rank empties its tables. -/
def hangUp (w : Wiring) (rank : Nat) : Wiring :=
  { w with
    conduit := fun k =>
      { frames := if holds w.size (w.incoming rank) k then [] else (w.conduit k).frames
        hasSender := (w.conduit k).hasSender && !holds w.size (w.outgoing rank) k
        hasReceiver := (w.conduit k).hasReceiver && !holds w.size (w.incoming rank) k }
    outgoing := fun a b => if a = rank then none else w.outgoing a b
    incoming := fun a b => if a = rank then none else w.incoming a b }

def send (w : Wiring) (rank peer : Nat) (f : Frame) : Option (Except GroupError Unit) × Wiring :=
  if w.size ≤ peer ∨ peer = rank then (some (.error (.invalidRank peer w.size)), w)
  else match w.outgoing rank peer with
    | none => (some (.error (.disconnected peer)), w)
    | some k =>
      if (w.conduit k).hasReceiver then (some (.ok ()), w.put k ((w.conduit k).frames ++ [f]))
      else (some (.error (.disconnected peer)), w)

def receive (w : Wiring) (rank peer : Nat) : Option (Except GroupError Frame) × Wiring :=
  if w.size ≤ peer ∨ peer = rank then (some (.error (.invalidRank peer w.size)), w)
  else match w.incoming rank peer with
    | none => (some (.error (.disconnected peer)), w)
    | some k => match (w.conduit k).frames with
      | f :: rest => (some (.ok f), w.put k rest)
      | [] => if (w.conduit k).hasSender then (none, w) else (some (.error (.disconnected peer)), w)

/-- What the wiring answers to a call, nothing while the call has to wait. -/
def act (w : Wiring) (rank : Nat) : (call : LinkCall) → Option call.Answer × Wiring
  | .send peer f => w.send rank peer f
  | .receive peer => w.receive rank peer
  | .close => (some (.ok ()), w.hangUp rank)
  | .leave => (some (), w.hangUp rank)
  | .log _ => (some (), w)

/-! ## A fresh wiring -/

variable {size : Nat}

/-- What is wired when the channels of some pairs are laid: each pair has one channel of its own, in
the tables of both. -/
structure Laid (size : Nat) (pairs : List (Nat × Nat)) (w : Wiring) : Prop where
  size_eq : w.size = size
  incoming_eq : ∀ a b, w.incoming b a = w.outgoing a b
  isSome_iff : ∀ a b, (w.outgoing a b).isSome ↔ (a, b) ∈ pairs ∧ a ≠ b
  lt_made : ∀ {a b k}, w.outgoing a b = some k → k < w.made
  apart : ∀ {a b x y k}, w.outgoing a b = some k → w.outgoing x y = some k → a = x ∧ b = y
  fresh : ∀ k < w.made, w.conduit k = ⟨[], true, true⟩

theorem laid_bare (size : Nat) : Laid size [] (bare size) where
  size_eq := rfl
  incoming_eq _ _ := rfl
  isSome_iff _ _ := by simp [bare]
  lt_made h := by simp [bare] at h
  apart h := by simp [bare] at h
  fresh k hk := absurd hk (Nat.not_lt_zero k)

theorem Laid.connect {pairs : List (Nat × Nat)} {w : Wiring} (hw : Laid size pairs w) (a b : Nat) :
    Laid size (pairs ++ [(a, b)]) (w.connect a b) := by
  unfold Wiring.connect
  split
  next hab =>
    subst hab
    refine { hw with isSome_iff := fun x y => ?_ }
    rw [hw.isSome_iff, List.mem_append, List.mem_singleton, Prod.mk.injEq]
    grind
  next hab =>
    have hold : ∀ {x y k}, w.outgoing x y = some k → k ≠ w.made := fun h =>
      Nat.ne_of_lt (hw.lt_made h)
    refine ⟨hw.size_eq, fun x y => ?_, fun x y => ?_, fun {x y k} h => ?_, fun {x y z u k} h h' => ?_,
      fun k hk => ?_⟩
    · simp only [enter, hw.incoming_eq, and_comm]
    · simp only [enter, List.mem_append, List.mem_singleton, Prod.mk.injEq]
      have := hw.isSome_iff x y
      grind
    · have := @hw.lt_made x y k
      simp only [enter] at h
      grind
    · simp only [enter] at h h'
      have := @hw.apart x y z u k
      grind
    · have := hw.fresh k
      grind

theorem ofSize_eq (size : Nat) : ofSize size =
    ((List.range size).product (List.range size)).foldl (fun w p => w.connect p.1 p.2) (bare size) := by
  simp only [ofSize, List.product, List.foldl_flatMap, List.foldl_map]

theorem laid_ofSize (size : Nat) : Laid size ((List.range size).product (List.range size)) (ofSize size) := by
  rw [ofSize_eq]
  generalize (List.range size).product (List.range size) = pairs
  induction pairs using List.reverseRecOn with
  | nil => exact laid_bare size
  | append_singleton pairs p ih =>
    rw [List.foldl_append]
    exact ih.connect p.1 p.2

/-! ## What a wiring has to do with a mesh -/

/-- The wiring is what the mesh stands for, and `number a b` is the channel from `a` to `b`. -/
structure Carries (size : Nat) (number : Nat → Nat → Nat) (m : Mesh) (w : Wiring) : Prop where
  fits : Fits size m
  size_eq : w.size = size
  apart : ∀ {a b x y}, a < size → IsPeer size a b → x < size → IsPeer size x y →
    number a b = number x y → a = x ∧ b = y
  alone : ∀ a, w.outgoing a a = none ∧ w.incoming a a = none
  outgoing : ∀ {a b}, a < size → IsPeer size a b →
    w.outgoing a b = if m.openAt a then some (number a b) else none
  incoming : ∀ {a b}, a < size → IsPeer size a b →
    w.incoming b a = if m.openAt b then some (number a b) else none
  conduit : ∀ {a b}, a < size → IsPeer size a b → w.conduit (number a b) =
    ⟨if m.openAt b then m.queue a b else [], m.openAt a, m.openAt b⟩

variable {number : Nat → Nat → Nat} {m : Mesh} {w : Wiring} {rank peer : Nat}

theorem carries_ofSize (size : Nat) :
    Carries size (fun a b => ((ofSize size).outgoing a b).getD 0) (Mesh.ofSize size) (ofSize size) := by
  have hlaid := laid_ofSize size
  have hopen : ∀ a < size, (Mesh.ofSize size).openAt a = true := fun a ha => (fresh_lines size a ha).1
  have hqueue : ∀ a < size, ∀ b < size, (Mesh.ofSize size).queue a b = [] := by
    intro a ha b hb
    simpa [lines, fresh, ha, hb] using queue_fresh size a b
  have hwired : ∀ {a b}, a < size → IsPeer size a b → ∃ k, (ofSize size).outgoing a b = some k := by
    intro a b ha hb
    refine Option.isSome_iff_exists.mp ((hlaid.isSome_iff a b).mpr ⟨?_, hb.2.symm⟩)
    exact List.mem_product.mpr ⟨List.mem_range.mpr ha, List.mem_range.mpr hb.1⟩
  have halone : ∀ a, (ofSize size).outgoing a a = none := by
    intro a
    rw [← Option.not_isSome_iff_eq_none, hlaid.isSome_iff]
    exact fun h => h.2 rfl
  refine ⟨fits_ofSize size, hlaid.size_eq, fun {a b x y} ha hb hx hy h => ?_, fun a => ⟨halone a, ?_⟩,
    fun {a b} ha hb => ?_, fun {a b} ha hb => ?_, fun {a b} ha hb => ?_⟩
  · obtain ⟨k, hk⟩ := hwired ha hb
    obtain ⟨j, hj⟩ := hwired hx hy
    rw [hk, hj, Option.getD_some, Option.getD_some] at h
    exact hlaid.apart hk (h ▸ hj)
  · rw [hlaid.incoming_eq, halone]
  · obtain ⟨k, hk⟩ := hwired ha hb
    simp [hk, hopen a ha]
  · obtain ⟨k, hk⟩ := hwired ha hb
    simp [hlaid.incoming_eq, hk, hopen b hb.1]
  · obtain ⟨k, hk⟩ := hwired ha hb
    simp [hk, hlaid.fresh k (hlaid.lt_made hk), hopen a ha, hopen b hb.1, hqueue a ha b hb.1]

/-! ## Every call -/

theorem Carries.put (hw : Carries size number m w) {a b : Nat} (ha : a < size) (hb : IsPeer size a b)
    (hopen : m.openAt b = true) (frames : List Frame) :
    Carries size number (m.setQueue a b frames) (w.put (number a b) frames) where
  fits := hw.fits.setQueue a b frames
  size_eq := hw.size_eq
  apart := hw.apart
  alone := hw.alone
  outgoing := hw.outgoing
  incoming := hw.incoming
  conduit {x y} hx hy := by
    simp only [Wiring.put, hw.conduit hx hy, openAt_setQueue, queue_setQueue hw.fits ha hb.1 hy.1]
    by_cases hxy : x = a ∧ y = b
    · obtain ⟨rfl, rfl⟩ := hxy
      simp [hopen]
    · rw [if_neg hxy, if_neg fun h => hxy (hw.apart hx hy ha hb h)]

theorem Carries.send (hw : Carries size number m w) (hr : rank < size) (f : Frame) :
    (m.act rank (.send peer f)).1 = (w.send rank peer f).1 ∧
      Carries size number (m.act rank (.send peer f)).2 (w.send rank peer f).2 := by
  rw [act_send hw.fits]
  by_cases hpeer : IsPeer size rank peer
  · have hvalid : ¬ (w.size ≤ peer ∨ peer = rank) := by
      rwa [hw.size_eq, ← not_isPeer_iff, not_not]
    rw [if_pos hpeer, Wiring.send, if_neg hvalid, hw.outgoing hr hpeer]
    cases hopen : m.openAt rank with
    | false => exact ⟨rfl, hw⟩
    | true =>
      simp only [hw.conduit hr hpeer, if_true, true_and]
      cases hother : m.openAt peer with
      | false => exact ⟨rfl, hw⟩
      | true => exact ⟨rfl, hw.put hr hpeer hother _⟩
  · have hrefused : w.size ≤ peer ∨ peer = rank := by rwa [hw.size_eq, ← not_isPeer_iff]
    rw [if_neg hpeer, Wiring.send, if_pos hrefused, hw.size_eq]
    exact ⟨rfl, hw⟩

theorem Carries.receive (hw : Carries size number m w) (hr : rank < size) :
    (m.act rank (.receive peer)).1 = (w.receive rank peer).1 ∧
      Carries size number (m.act rank (.receive peer)).2 (w.receive rank peer).2 := by
  rw [act_receive hw.fits]
  by_cases hpeer : IsPeer size rank peer
  · have hvalid : ¬ (w.size ≤ peer ∨ peer = rank) := by
      rwa [hw.size_eq, ← not_isPeer_iff, not_not]
    rw [if_pos hpeer, Wiring.receive, if_neg hvalid, hw.incoming hpeer.1 (hpeer.symm hr)]
    cases hopen : m.openAt rank with
    | false => exact ⟨rfl, hw⟩
    | true =>
      simp only [hw.conduit hpeer.1 (hpeer.symm hr), hopen, if_true]
      cases hqueue : m.queue peer rank with
      | cons f rest => exact ⟨rfl, hw.put hpeer.1 (hpeer.symm hr) hopen _⟩
      | nil =>
        cases m.openAt peer with
        | false => exact ⟨rfl, hw⟩
        | true => exact ⟨rfl, hw⟩
  · have hrefused : w.size ≤ peer ∨ peer = rank := by rwa [hw.size_eq, ← not_isPeer_iff]
    rw [if_neg hpeer, Wiring.receive, if_pos hrefused, hw.size_eq]
    exact ⟨rfl, hw⟩

/-! ## Closing -/

theorem holds_eq_true_iff {entries : Nat → Option Nat} {k : Nat} :
    holds size entries k = true ↔ ∃ peer < size, entries peer = some k := by
  simp [holds]

theorem Carries.holds_outgoing (hw : Carries size number m w) (hr : rank < size) {a b : Nat}
    (ha : a < size) (hb : IsPeer size a b) :
    holds size (w.outgoing rank) (number a b) = true ↔ a = rank ∧ m.openAt rank = true := by
  rw [holds_eq_true_iff]
  constructor
  · rintro ⟨peer, hpeer, h⟩
    have hne : peer ≠ rank := by
      rintro rfl
      simp [(hw.alone peer).1] at h
    rw [hw.outgoing hr ⟨hpeer, hne⟩, Option.ite_none_right_eq_some, Option.some.injEq] at h
    exact ⟨(hw.apart hr ⟨hpeer, hne⟩ ha hb h.2).1.symm, h.1⟩
  · rintro ⟨rfl, hopen⟩
    exact ⟨b, hb.1, by rw [hw.outgoing ha hb, if_pos hopen]⟩

theorem Carries.holds_incoming (hw : Carries size number m w) (hr : rank < size) {a b : Nat}
    (ha : a < size) (hb : IsPeer size a b) :
    holds size (w.incoming rank) (number a b) = true ↔ b = rank ∧ m.openAt rank = true := by
  rw [holds_eq_true_iff]
  constructor
  · rintro ⟨peer, hpeer, h⟩
    have hne : peer ≠ rank := by
      rintro rfl
      simp [(hw.alone peer).2] at h
    have hpair : IsPeer size peer rank := ⟨hr, hne.symm⟩
    rw [hw.incoming hpeer hpair, Option.ite_none_right_eq_some, Option.some.injEq] at h
    exact ⟨(hw.apart hpeer hpair ha hb h.2).2.symm, h.1⟩
  · rintro ⟨rfl, hopen⟩
    exact ⟨a, ha, by rw [hw.incoming ha hb, if_pos hopen]⟩

theorem openAt_close_eq (hm : Fits size m) (hr : rank < size) {a : Nat} {held : Bool}
    (h : held = true ↔ a = rank ∧ m.openAt rank = true) :
    (m.close rank).openAt a = (m.openAt a && !held) := by
  rw [openAt_close hm hr]
  by_cases ha : a = rank
  · subst ha
    cases hopen : m.openAt a <;> simp_all
  · simp_all

theorem Carries.hangUp (hw : Carries size number m w) (hr : rank < size) :
    Carries size number (m.close rank) (w.hangUp rank) where
  fits := hw.fits.close rank
  size_eq := hw.size_eq
  apart := hw.apart
  alone a := by simp [Wiring.hangUp, hw.alone a]
  outgoing {a b} ha hb := by
    simp only [Wiring.hangUp, hw.outgoing ha hb, openAt_close hw.fits hr]
    split <;> simp
  incoming {a b} ha hb := by
    simp only [Wiring.hangUp, hw.incoming ha hb, openAt_close hw.fits hr]
    split <;> simp
  conduit {a b} ha hb := by
    rw [openAt_close_eq hw.fits hr (hw.holds_outgoing hr ha hb),
      openAt_close_eq hw.fits hr (hw.holds_incoming hr ha hb), queue_close]
    simp only [Wiring.hangUp, hw.size_eq, hw.conduit ha hb]
    cases holds size (w.incoming rank) (number a b) <;> simp

/-! ## Any calls -/

theorem Carries.act (hw : Carries size number m w) (hr : rank < size) (call : LinkCall) :
    (m.act rank call).1 = (w.act rank call).1 ∧
      Carries size number (m.act rank call).2 (w.act rank call).2 := by
  cases call with
  | send peer f => exact hw.send hr f
  | receive peer => exact hw.receive hr
  | close => exact ⟨rfl, hw.hangUp hr⟩
  | leave => exact ⟨rfl, hw.hangUp hr⟩
  | log event => exact ⟨rfl, hw⟩

/-- A new wiring after some calls. -/
abbrev after (ops : List (Fin size × LinkCall)) : Chronicle size Wiring :=
  chronicle Wiring.act (ofSize size) ops

theorem carries_after (ops : List (Fin size × LinkCall)) :
    (Mesh.after ops).past = (after ops).past ∧
      ∃ number, Carries size number (Mesh.after ops).state (after ops).state := by
  induction ops using List.reverseRecOn with
  | nil => exact ⟨rfl, _, carries_ofSize size⟩
  | append_singleton ops op ih =>
    obtain ⟨hpast, number, hstate⟩ := ih
    obtain ⟨hanswer, hnext⟩ := hstate.act op.1.2 op.2
    rw [Mesh.after, after, chronicle_append, chronicle_append]
    refine ⟨?_, number, hnext⟩
    simp only [Chronicle.called, hpast, hanswer]

end Wiring

end Lagmeter.Mesh
