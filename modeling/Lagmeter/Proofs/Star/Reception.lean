import Lagmeter.Proofs.Feed.Basic
import Lagmeter.Proofs.Star.Carrier

/-!
# Receiving from a stream of octets

A peer may send any octets at all, in pieces of any size, and end the stream anywhere. Each receive
takes one piece off the stream and says what it is: a body is read as a frame or refused, and the end
of the stream is the end of the connection. A length above the limit is a piece of its own. So the
octets of the frame that it announced are read as lengths and bodies in their turn.
-/

namespace Lagmeter.Star

/-! ## Cuts -/

theorem of_exactly {count : Nat} {octets part rest : List UInt8}
    (h : exactly count octets = some (part, rest)) : part.length = count ∧ octets = part ++ rest := by
  unfold exactly at h
  split at h
  case isTrue => cases h
  case isFalse hle =>
    obtain ⟨rfl, rfl⟩ := Prod.mk.inj (Option.some.inj h)
    exact ⟨List.length_take_of_le (Nat.le_of_not_lt hle), (List.take_append_drop ..).symm⟩

theorem exactly_append (part rest : List UInt8) :
    exactly part.length (part ++ rest) = some (part, rest) := by
  rw [exactly, if_neg (by simp), List.take_left, List.drop_left]

/-- The first body of a stream that is cut where one frame ends and the next one begins. -/
def body? (octets : List UInt8) : Option (List UInt8 × List UInt8) :=
  (Codec.number? 4 octets).bind fun (length, rest) => exactly length rest

/-- The octets of a frame with this body, whatever it says. -/
def framed (body : List UInt8) : List UInt8 := Codec.octets 4 body.length ++ body

theorem of_body? {octets body rest : List UInt8} (h : body? octets = some (body, rest)) :
    octets = framed body ++ rest := by
  obtain ⟨⟨length, more⟩, hnumber, hexactly⟩ := Option.bind_eq_some_iff.mp h
  obtain ⟨-, rfl⟩ := Codec.of_number? hnumber
  obtain ⟨rfl, rfl⟩ := of_exactly hexactly
  rw [framed, List.append_assoc]

theorem body?_framed {body : List UInt8} (h : body.length < 256 ^ 4) (rest : List UInt8) :
    body? (framed body ++ rest) = some (body, rest) := by
  rw [body?, framed, List.append_assoc, Codec.number?_octets h]
  exact exactly_append ..

theorem length_lt_of_body? {octets body rest : List UInt8} (h : body? octets = some (body, rest)) :
    rest.length < octets.length := by
  rw [of_body? h, framed, List.length_append, List.length_append, Codec.length_octets]
  omega

/-- The bodies of all whole frames of a stream, cut from its start. -/
def bodies (octets : List UInt8) : List (List UInt8) :=
  match _h : body? octets with
  | none => []
  | some (body, rest) => body :: bodies rest
termination_by octets.length
decreasing_by exact length_lt_of_body? _h

theorem bodies_framed {body : List UInt8} (h : body.length < 256 ^ 4) (rest : List UInt8) :
    bodies (framed body ++ rest) = body :: bodies rest := by
  rw [bodies]
  split
  case h_1 hnone =>
    rw [body?_framed h] at hnone
    cases hnone
  case h_2 hsome =>
    rw [body?_framed h] at hsome
    cases hsome
    rfl

/-! ## Pieces -/

/-- What one receive takes off a stream. -/
inductive Piece where
  | body (octets : List UInt8)
  /-- A length above the limit, without anything that follows it. -/
  | oversize (length : Nat)

namespace Piece

def octets : Piece → List UInt8
  | .body b => framed b
  | .oversize length => Codec.octets 4 length

def Fits : Piece → Prop
  | .body b => b.length ≤ maxFrame
  | .oversize length => maxFrame < length ∧ length < 256 ^ 4

end Piece

/-- What a receive says about a body. -/
def verdict (body : List UInt8) : Except GroupError Frame := (Frame.decode body).mapError .codec

def Piece.verdict : Piece → Except GroupError Frame
  | .body b => Star.verdict b
  | .oversize length => .error (.frameTooLarge length)

/-- No piece is whole at the start of these octets. -/
def Incomplete (octets : List UInt8) : Prop := ∀ p : Piece, p.Fits → ¬ p.octets <+: octets

variable {size rank peer : Nat} {s s' : Star}

theorem read_piece (peer : Nat) {p : Piece} (h : p.Fits) (rest : List UInt8) (ended : Bool) :
    read peer ⟨p.octets ++ rest, ended⟩ = some ⟨p.verdict, ⟨rest, ended⟩, false⟩ := by
  cases p with
  | oversize length =>
    obtain ⟨hlarge, hlength⟩ := h
    simp only [read, Piece.octets, Codec.number?_octets hlength, if_pos hlarge]
    rfl
  | body b =>
    have hb : ¬ maxFrame < b.length := Nat.not_lt.mpr h
    have hlength : b.length < 256 ^ 4 := Nat.lt_of_le_of_lt h (by decide)
    simp only [read, Piece.octets, framed, List.append_assoc, Codec.number?_octets hlength, if_neg hb,
      exactly_append, Piece.verdict, Star.verdict]
    cases Frame.decode b <;> rfl

theorem read_cases {p : Pipe} {r : Reading} (h : read peer p = some r) :
    (∃ piece : Piece, piece.Fits ∧ p.octets = piece.octets ++ r.pipe.octets ∧
      r.pipe.ended = p.ended ∧ r.result = piece.verdict ∧ r.dropped = false) ∨
    (p.ended = true ∧ Incomplete p.octets ∧ r = ⟨.error (.disconnected peer), ⟨[], true⟩, true⟩) := by
  have hcut (hr : cutOff peer p = some r) : p.ended = true ∧ Incomplete p.octets ∧
      r = ⟨.error (.disconnected peer), ⟨[], true⟩, true⟩ := by
    unfold cutOff at hr
    split at hr
    case isFalse => cases hr
    case isTrue hended =>
      cases hr
      refine ⟨hended, fun piece hfits ⟨more, hmore⟩ => ?_, rfl⟩
      -- A whole piece would have been read.
      have hread := read_piece peer hfits more p.ended
      rw [hmore, h] at hread
      exact Bool.noConfusion (congrArg Reading.dropped (Option.some.inj hread))
  unfold read at h
  split at h
  case h_1 => exact .inr (hcut h)
  case h_2 length rest hnumber =>
    obtain ⟨hlength, hoctets⟩ := Codec.of_number? hnumber
    split at h
    case isTrue hlarge =>
      cases h
      exact .inl ⟨.oversize length, ⟨hlarge, hlength⟩, hoctets, rfl, rfl, rfl⟩
    case isFalse hsmall =>
      split at h
      case h_1 => exact .inr (hcut h)
      case h_2 body rest' hexactly =>
        cases h
        obtain ⟨rfl, rfl⟩ := of_exactly hexactly
        refine .inl ⟨.body body, Nat.le_of_not_lt hsmall, ?_, rfl, ?_, rfl⟩
        · rw [hoctets, Piece.octets, framed, List.append_assoc]
        · show _ = (Frame.decode body).mapError GroupError.codec
          cases Frame.decode body <;> rfl

/-! ## A connection -/

/-- A star, all that one peer has sent to one rank, and what the rank has received from it. -/
structure Reception where
  star : Star
  sent : List UInt8 := []
  results : List (Except GroupError Frame) := []

namespace Reception

inductive Move where
  | arrive (octets : List UInt8)
  | finish
  | receive

def act (rank peer : Nat) (x : Reception) : Move → Option Reception
  | .arrive octets =>
    let p := x.star.inbox rank peer
    if p.ended then none
    else some { x with
      star := x.star.setInbox rank peer { p with octets := p.octets ++ octets }
      sent := x.sent ++ octets }
  | .finish =>
    some { x with star := x.star.setInbox rank peer { x.star.inbox rank peer with ended := true } }
  | .receive => (x.star.receive rank peer).map fun (result, star) =>
      { x with star, results := x.results ++ [result] }

/-- Nothing but greetings has gone over the connections of the group. -/
def fresh (size : Nat) : Reception := { star := ofSize size }

abbrev Reachable (size rank peer : Nat) : Reception → Prop :=
  Moves.Lead (act rank peer) (fun _ _ => True) (fresh size)

/-- What was sent is what was received, piece by piece, and what is still in the pipe. -/
structure Sound (size rank peer : Nat) (x : Reception) : Prop where
  fits : Fits size x.star
  pieces : ∃ (taken : List Piece) (rest : List UInt8), x.sent = taken.flatMap Piece.octets ++ rest ∧
    (∀ p ∈ taken, p.Fits) ∧
    ((x.star.holds rank peer = true ∧ rest = (x.star.inbox rank peer).octets ∧
        x.results = taken.map Piece.verdict) ∨
      (x.star.holds rank peer = false ∧ (x.star.inbox rank peer).ended = true ∧ Incomplete rest ∧
        ∃ count, x.results =
          taken.map Piece.verdict ++ List.replicate (count + 1) (.error (.disconnected peer))))

theorem holds_ofSize (h : Joined size rank peer) : (ofSize size).holds rank peer = true := by
  have hrank := h.left
  have hpeer := h.right
  rcases h.root with rfl | rfl <;> simp [holds, ofSize, Array.getD_eq_getD_getElem?, hrank, hpeer]

theorem inbox_ofSize (h : Joined size rank peer) : (ofSize size).inbox rank peer = {} := by
  have hrank := h.left
  have hpeer := h.right
  unfold inbox
  split <;> simp [ofSize, Array.getD_eq_getD_getElem?, hrank, hpeer]

theorem sound_fresh (h : Joined size rank peer) : Sound size rank peer (fresh size) where
  fits := fits_ofSize size
  pieces := by
    refine ⟨[], [], rfl, nofun, .inl ⟨holds_ofSize h, ?_, rfl⟩⟩
    rw [fresh, inbox_ofSize h]

variable {x y : Reception}

theorem Sound.arrive (h : x.Sound size rank peer) (hjoined : Joined size rank peer)
    (octets : List UInt8) (hopen : (x.star.inbox rank peer).ended = false) :
    Sound size rank peer { x with
      star := x.star.setInbox rank peer
        { x.star.inbox rank peer with octets := (x.star.inbox rank peer).octets ++ octets }
      sent := x.sent ++ octets } where
  fits := h.fits.setInbox ..
  pieces := by
    obtain ⟨taken, rest, hsent, hfits, hrest | ⟨-, hended, -⟩⟩ := h.pieces
    · obtain ⟨hholds, rfl, hresults⟩ := hrest
      refine ⟨taken, _, ?_, hfits, .inl ⟨(holds_setInbox ..).trans hholds, rfl, hresults⟩⟩
      rw [inbox_setInbox h.fits hjoined hjoined, if_pos ⟨rfl, rfl⟩]
      simp only [hsent, List.append_assoc]
    · rw [hopen] at hended
      cases hended

theorem Sound.finish (h : x.Sound size rank peer) (hjoined : Joined size rank peer) :
    Sound size rank peer { x with
      star := x.star.setInbox rank peer { x.star.inbox rank peer with ended := true } } where
  fits := h.fits.setInbox ..
  pieces := by
    obtain ⟨taken, rest, hsent, hfits, hrest⟩ := h.pieces
    refine ⟨taken, rest, hsent, hfits, ?_⟩
    rw [inbox_setInbox h.fits hjoined hjoined, if_pos ⟨rfl, rfl⟩, holds_setInbox]
    exact hrest.imp id fun ⟨hholds, _, hresults⟩ => ⟨hholds, rfl, hresults⟩

theorem Sound.receive (h : x.Sound size rank peer) (hjoined : Joined size rank peer)
    {result : Except GroupError Frame} (hreceive : x.star.receive rank peer = some (result, s')) :
    Sound size rank peer { x with star := s', results := x.results ++ [result] } := by
  unfold Star.receive at hreceive
  simp only [hjoined.checkPeer h.fits] at hreceive
  obtain ⟨taken, rest, hsent, hfits, hrest | hgone⟩ := h.pieces
  · obtain ⟨hholds, rfl, hresults⟩ := hrest
    rw [hholds] at hreceive
    obtain ⟨r, hread, hstar⟩ := Option.map_eq_some_iff.mp hreceive
    have hset := h.fits.setInbox rank peer r.pipe
    have hinbox := inbox_setInbox h.fits hjoined hjoined r.pipe
    rw [if_pos ⟨rfl, rfl⟩] at hinbox
    obtain ⟨piece, hpiece, hoctets, -, hresult, hkept⟩ | ⟨-, hpart, rfl⟩ := read_cases hread
    · -- One piece goes from the pipe to the results.
      rw [hkept] at hstar
      cases hstar
      refine ⟨hset, taken ++ [piece], r.pipe.octets, ?_, ?_, .inl ⟨?_, ?_, ?_⟩⟩
      · simp [hsent, hoctets]
      · simpa [or_imp, forall_and] using ⟨hfits, hpiece⟩
      · exact (holds_setInbox ..).trans hholds
      · exact congrArg Pipe.octets hinbox.symm
      · simp [hresults, hresult]
    · cases hstar
      refine ⟨hset.drop hjoined, taken, _, hsent, hfits, .inr ⟨?_, ?_, hpart, 0, ?_⟩⟩
      · show (Star.drop _ rank peer).holds rank peer = false
        rw [holds_drop hset hjoined hjoined, if_pos ⟨rfl, rfl⟩]
      · show ((Star.drop _ rank peer).inbox rank peer).ended = true
        rw [inbox_drop hset hjoined hjoined, if_neg fun heq => hjoined.ne heq.1, hinbox]
      · simp [hresults]
  · obtain ⟨hholds, hended, hpart, count, hresults⟩ := hgone
    rw [hholds] at hreceive
    cases hreceive
    refine ⟨h.fits, taken, rest, hsent, hfits, .inr ⟨hholds, hended, hpart, count + 1, ?_⟩⟩
    rw [hresults, List.append_assoc, ← List.replicate_succ']

theorem Sound.act (h : x.Sound size rank peer) (hjoined : Joined size rank peer) {m : Move}
    (hact : x.act rank peer m = some y) : y.Sound size rank peer := by
  cases m with
  | arrive octets =>
    simp only [Reception.act] at hact
    split at hact
    case isTrue => cases hact
    case isFalse hopen =>
      cases hact
      exact h.arrive hjoined octets (Bool.eq_false_iff.mpr hopen)
  | finish =>
    cases hact
    exact h.finish hjoined
  | receive =>
    obtain ⟨⟨result, star⟩, hreceive, rfl⟩ := Option.map_eq_some_iff.mp hact
    exact h.receive hjoined hreceive

theorem sound_of_reachable (hjoined : Joined size rank peer) (h : Reachable size rank peer x) :
    x.Sound size rank peer := by
  induction h with
  | refl => exact sound_fresh hjoined
  | tail _ hstep ih =>
    obtain ⟨m, -, hact⟩ := hstep
    exact ih.act hjoined hact

/-! ## Frames that were sent -/

/-- The receives give the bodies of the stream one after the other. After anything else there are no frames.
-/
def Framed (peer : Nat) (sent : List UInt8) (results : List (Except GroupError Frame)) : Prop :=
  ∃ (count : Nat) (failures : List (Except GroupError Frame)),
    results = ((bodies sent).take count).map verdict ++ failures ∧
    (∀ r ∈ failures, r = .error (.disconnected peer) ∨ ∃ length, r = .error (.frameTooLarge length)) ∧
    (failures.head? = some (.error (.disconnected peer)) → (bodies sent).length ≤ count)

/-- As long as no length is above the limit, the pieces are the bodies of the stream. -/
theorem bodies_of_pieces {taken : List Piece} (rest : List UInt8) (hfits : ∀ p ∈ taken, p.Fits)
    (hnone : ∀ length, .oversize length ∉ taken) : ∃ found,
      taken = found.map .body ∧ bodies (taken.flatMap Piece.octets ++ rest) = found ++ bodies rest := by
  induction taken with
  | nil => exact ⟨[], rfl, rfl⟩
  | cons p taken ih =>
    obtain ⟨found, rfl, hbodies⟩ := ih (fun q hq => hfits q (List.mem_cons_of_mem _ hq))
      fun length hmem => hnone length (List.mem_cons_of_mem _ hmem)
    cases p with
    | oversize length => exact absurd List.mem_cons_self (hnone length)
    | body b =>
      have hb : b.length < 256 ^ 4 :=
        Nat.lt_of_le_of_lt (hfits (.body b) List.mem_cons_self) (by decide)
      refine ⟨b :: found, rfl, ?_⟩
      rw [List.flatMap_cons, List.append_assoc, Piece.octets, bodies_framed hb, hbodies]
      rfl

theorem bodies_of_incomplete {octets : List UInt8} (h : Incomplete octets) : bodies octets = [] := by
  rw [bodies]
  split
  case h_1 => rfl
  case h_2 body rest hbody =>
    have hoctets := of_body? hbody
    by_cases hlarge : maxFrame < body.length
    · obtain ⟨⟨length, more⟩, hnumber, hexactly⟩ := Option.bind_eq_some_iff.mp hbody
      obtain ⟨hlength, -⟩ := Codec.of_number? hnumber
      obtain ⟨rfl, -⟩ := of_exactly hexactly
      refine absurd ⟨body ++ rest, ?_⟩ (h (.oversize body.length) ⟨hlarge, hlength⟩)
      rw [hoctets, framed, List.append_assoc]
      rfl
    · exact absurd ⟨rest, hoctets.symm⟩ (h (.body body) (Nat.le_of_not_lt hlarge))

/-- However a stream is cut on its way, the receives give its pieces one after the other. -/
theorem receives_pieces (hjoined : Joined size rank peer) (h : Reachable size rank peer x) :
    (∃ (taken : List Piece) (rest : List UInt8) (count : Nat),
      x.sent = taken.flatMap Piece.octets ++ rest ∧ (∀ p ∈ taken, p.Fits) ∧
      x.results = taken.map Piece.verdict ++ List.replicate count (.error (.disconnected peer)) ∧
      (count ≠ 0 → Incomplete rest) ∧
      ∀ p : Piece, p.Fits → p.octets <+: rest →
        ∃ y, x.act rank peer .receive = some y ∧ y.results = x.results ++ [p.verdict]) ∧
    ((∀ length, .error (.frameTooLarge length) ∉ x.results) → Framed peer x.sent x.results) := by
  have hsound := sound_of_reachable hjoined h
  obtain ⟨taken, rest, hsent, hfits, hrest⟩ := hsound.pieces
  have hresults : ∃ count, x.results = taken.map Piece.verdict ++
      List.replicate count (.error (.disconnected peer)) ∧ (count ≠ 0 → Incomplete rest) := by
    rcases hrest with ⟨-, -, hresults⟩ | ⟨-, -, hpart, count, hresults⟩
    · exact ⟨0, hresults.trans (List.append_nil _).symm, fun hne => absurd rfl hne⟩
    · exact ⟨count + 1, hresults, fun _ => hpart⟩
  obtain ⟨count, hresults, hpart⟩ := hresults
  refine ⟨⟨taken, rest, count, hsent, hfits, hresults, hpart, fun p hp hwhole => ?_⟩, fun hsmall => ?_⟩
  · rcases hrest with ⟨hholds, rfl, -⟩ | ⟨-, -, hnone, -⟩
    · obtain ⟨more, hmore⟩ := hwhole
      have hread := read_piece peer hp more (x.star.inbox rank peer).ended
      rw [hmore] at hread
      have hreceive : x.star.receive rank peer = some (p.verdict,
          x.star.setInbox rank peer ⟨more, (x.star.inbox rank peer).ended⟩) := by
        simp only [Star.receive, hjoined.checkPeer hsound.fits, hholds, hread]
        rfl
      exact ⟨_, congrArg (Option.map _) hreceive, rfl⟩
    · exact absurd hwhole (hnone p hp)
  · have hnone : ∀ length, Piece.oversize length ∉ taken := by
      intro length hmem
      refine hsmall length ?_
      rw [hresults]
      exact List.mem_append_left _ (List.mem_map_of_mem (f := Piece.verdict) hmem)
    obtain ⟨found, rfl, hbodies⟩ := bodies_of_pieces rest hfits hnone
    refine ⟨found.length, List.replicate count (.error (.disconnected peer)), ?_, ?_, ?_⟩
    · rw [hresults, hsent, hbodies, List.take_left, List.map_map]
      rfl
    · exact fun r hr => .inl (List.eq_of_mem_replicate hr)
    · intro hhead
      have hcount : count ≠ 0 := by
        rintro rfl
        cases hhead
      rw [hsent, hbodies, bodies_of_incomplete (hpart hcount), List.append_nil]

/-- A frame, a body that says nothing, and the first octets of another frame, in two parts. -/
def brokenStream : List Move :=
  [.arrive (packed ⟨.barrier, 7, .empty⟩ ++ [1, 0, 0]), .receive, .arrive [0, 9, 16, 0, 0, 0, 1], .receive,
    .finish, .receive, .receive]

theorem receives_brokenStream : ∃ x, Reachable 3 0 2 x ∧
    x.results = [.ok ⟨.barrier, 7, .empty⟩, .error (.codec .short), .error (.disconnected 2),
      .error (.disconnected 2)] ∧ Framed 2 x.sent x.results := by
  have hplayed : ((Moves.play? (act 0 2) (fun _ _ => True) (fresh 3) brokenStream).any fun x =>
      decide (x.results = [.ok ⟨.barrier, 7, .empty⟩, .error (.codec .short), .error (.disconnected 2),
        .error (.disconnected 2)])) = true := by
    decide +kernel
  obtain ⟨x, hplay, hresults⟩ := (Option.any_eq_true ..).mp hplayed
  have hreachable : Reachable 3 0 2 x := Moves.lead_of_play hplay
  have hjoined : Joined 3 0 2 := ⟨by decide, by decide, by decide, .inl rfl⟩
  refine ⟨x, hreachable, of_decide_eq_true hresults, (receives_pieces hjoined hreachable).2 ?_⟩
  rw [of_decide_eq_true hresults]
  simp

/-- A length that is one above the limit, and a frame behind it. In the stream this is the start of one
long frame. -/
def inventedFrame : List Move :=
  [.arrive (Codec.octets 4 (maxFrame + 1) ++ packed ⟨.barrier, 7, .empty⟩), .receive, .receive]

/-- The second receive gives a frame that was never sent. -/
theorem not_always_framed : ¬ ∀ (size rank peer : Nat) (x : Reception), Joined size rank peer →
    Reachable size rank peer x → Framed peer x.sent x.results := by
  intro hall
  have hplayed : ((Moves.play? (act 0 1) (fun _ _ => True) (fresh 2) inventedFrame).any fun x =>
      decide (x.results = [.error (.frameTooLarge (maxFrame + 1)), .ok ⟨.barrier, 7, .empty⟩] ∧
        body? x.sent = none)) = true := by
    decide +kernel
  obtain ⟨x, hplay, hfacts⟩ := (Option.any_eq_true ..).mp hplayed
  obtain ⟨hresults, hbody⟩ := of_decide_eq_true hfacts
  have hreachable : Reachable 2 0 1 x := Moves.lead_of_play hplay
  have hjoined : Joined 2 0 1 := ⟨by decide, by decide, by decide, .inl rfl⟩
  obtain ⟨count, failures, hframed, hfailures, -⟩ := hall 2 0 1 x hjoined hreachable
  have hbodies : bodies x.sent = [] := by
    rw [bodies]
    split
    case h_1 => rfl
    case h_2 hsome =>
      rw [hbody] at hsome
      cases hsome
  rw [hbodies, List.take_nil, List.map_nil, List.nil_append, hresults] at hframed
  rcases hfailures (.ok ⟨.barrier, 7, .empty⟩) (by rw [← hframed]; simp) with h | ⟨length, h⟩
  · cases h
  · cases h

end Reception

end Lagmeter.Star
