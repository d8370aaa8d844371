import Lagmeter.Proofs.Group.Provenance

/-!
# The fate of an exchange

An exchange is agreed, or it is doomed: whatever happens from now on, it can have no replies any
more. Both last. What an exchange gives to a rank depends on its fate alone.
-/

namespace Lagmeter.Assembly

open Exchange

variable {C : Carrier} {J : Interface} {α : Type}

/-- Exchange `i` can have no replies, whatever happens from now on. -/
def Doomed (g : Roster) (s : Assembly C J α) (i : Nat) : Prop :=
  ∀ s', Reaches g s s' → ∀ replies, ¬ Agreed g.size (s'.offers i) replies

/-- What a reply gives to rank `q`. The root does not open its own. -/
def award (q : Nat) (payload : Payload) : Except GroupError Payload :=
  if q = 0 then .ok payload else opened payload

/-- What exchange `i` gives to rank `q`. -/
def Fate (g : Roster) (s : Assembly C J α) (i q : Nat) (x : Except GroupError Payload) : Prop :=
  (∃ replies payload, Agreed g.size (s.offers i) replies ∧ replies[q]? = some payload ∧
    x = award q payload) ∨
  (s.Doomed g i ∧ ∃ e, x = .error e)

/-- The contribution of rank `p` to exchange `i`. -/
def Contribution (base : Nat) (s : Assembly C J α) (p i : Nat) (f : Frame) : Prop :=
  ∃ ρ, s.offers i p = some ρ ∧ f = ρ.frame (base + i + 1)

/-- The answer of the root to rank `p` in exchange `i`. -/
def Reply (g : Roster) (base : Nat) (s : Assembly C J α) (p i : Nat) (f : Frame) : Prop :=
  f.sequence = base + i + 1 ∧ (∃ ρ, s.offers i 0 = some ρ ∧ f.operation = ρ.operation) ∧
    ((∃ replies, Agreed g.size (s.offers i) replies ∧ replies[p]? = some f.payload) ∨
      (s.Doomed g i ∧ ∃ reason, f.payload = .failure reason))

/-- What the root found at rank `p` in exchange `i`: a contribution that fits its own, or that the
exchange is doomed. -/
def Found (g : Roster) (s : Assembly C J α) (i p : Nat) (x : Except GroupError Payload) : Prop :=
  (∃ root ρ, s.offers i 0 = some root ∧ s.offers i p = some ρ ∧
    ρ.operation = root.operation ∧ x = .ok ρ.contribution) ∨
  (s.Doomed g i ∧ ∃ e, x = .error e)

/-- What the root found at the ranks 1, 2 and so on. -/
def Polled (g : Roster) (s : Assembly C J α) (i : Nat)
    (received : List (Except GroupError Payload)) : Prop :=
  ∀ j x, received[j]? = some x → s.Found g i (j + 1) x

/-- What holds of the place of rank `r` in exchange `i`. -/
def Placed (g : Roster) (s : Assembly C J α) (i r : Nat) : Place → Prop
  | .entering => True
  | .sending | .awaiting => r ≠ 0
  | .collecting received peer rest => r = 0 ∧ s.Polled g i received ∧
      peer :: rest = List.range' (received.length + 1) (g.size - 1 - received.length)
  | .answering replies peer payload rest => r = 0 ∧ Agreed g.size (s.offers i) replies ∧
      (peer, payload) :: rest <:+ Place.outgoing g.size replies
  | .abandoning _ => r = 0 ∧ s.Doomed g i
  | .telling _ peer rest => r = 0 ∧ s.Doomed g i ∧ peer :: rest <:+ peers g.size
  | .noting _ _ rest => r = 0 ∧ s.Doomed g i ∧ rest <:+ peers g.size
  | .finished x => s.Fate g i r x

/-! ## What lasts -/

variable {g : Roster} {base i r : Nat} {s s' : Assembly C J α}

theorem Reaches.grows (h : Reaches g s s') : s.Grows s' := by
  induction h with
  | refl => exact fun _ _ _ h => h
  | tail _ hstep ih =>
    obtain ⟨r, -, t', x', hact, rfl⟩ := hstep
    intro i q ρ hρ
    refine grows_put ?_ i q ρ (ih i q ρ hρ)
    cases hact with
    | enter ρ _ _ => exact List.prefix_append _ _
    | talk _ _ _ _ _ _ _ _ => exact List.prefix_rfl
    | conclude _ _ _ _ _ => exact List.prefix_rfl
    | other _ _ _ _ => exact List.prefix_rfl
    | leave _ _ _ _ => exact List.prefix_rfl

theorem Reaches.rank_eq (h : Reaches g s s') {result : Option α}
    (hgone : (s.rank r).stage = .gone result) : s'.rank r = s.rank r := by
  induction h with
  | refl => rfl
  | tail _ hstep ih =>
    obtain ⟨q, -, t', x', hact, rfl⟩ := hstep
    by_cases hq : r = q
    · subst hq
      rw [← ih] at hgone
      cases hact with
      | enter _ _ h => rw [hgone] at h; cases h
      | talk _ _ _ _ _ _ h _ => rw [hgone] at h; cases h
      | conclude _ _ _ _ h => rw [hgone] at h; cases h
      | other _ _ _ h => rw [hgone] at h; cases h
      | leave _ _ h _ => rw [hgone] at h; cases h
    · rw [put_rank_ne hq, ih]

theorem Reaches.agreed (h : Reaches g s s') {replies : List Payload}
    (hagreed : Agreed g.size (s.offers i) replies) : Agreed g.size (s'.offers i) replies :=
  hagreed.mono fun q _ ρ => h.grows i q ρ

theorem Doomed.mono (hdoomed : s.Doomed g i) (h : Reaches g s s') : s'.Doomed g i :=
  fun s'' h' => hdoomed s'' (Relation.ReflTransGen.trans h h')

theorem Doomed.not_agreed (hdoomed : s.Doomed g i) {replies : List Payload} :
    ¬ Agreed g.size (s.offers i) replies := hdoomed s .refl replies

theorem Fate.mono {q : Nat} {x : Except GroupError Payload} (hfate : s.Fate g i q x)
    (h : Reaches g s s') : s'.Fate g i q x := by
  rcases hfate with ⟨replies, payload, hagreed, hx⟩ | ⟨hdoomed, hx⟩
  · exact .inl ⟨replies, payload, h.agreed hagreed, hx⟩
  · exact .inr ⟨hdoomed.mono h, hx⟩

theorem Contribution.mono {p : Nat} {f : Frame} (hf : s.Contribution base p i f)
    (h : Reaches g s s') : s'.Contribution base p i f := by
  obtain ⟨ρ, hρ, hf⟩ := hf
  exact ⟨ρ, h.grows _ _ _ hρ, hf⟩

theorem Reply.mono {p : Nat} {f : Frame} (hf : s.Reply g base p i f) (h : Reaches g s s') :
    s'.Reply g base p i f := by
  obtain ⟨hseq, ⟨ρ, hρ, hop⟩, hpayload⟩ := hf
  refine ⟨hseq, ⟨ρ, h.grows _ _ _ hρ, hop⟩, ?_⟩
  rcases hpayload with ⟨replies, hagreed, hreply⟩ | ⟨hdoomed, hreason⟩
  · exact .inl ⟨replies, h.agreed hagreed, hreply⟩
  · exact .inr ⟨hdoomed.mono h, hreason⟩

theorem Found.mono {p : Nat} {x : Except GroupError Payload} (hfound : s.Found g i p x)
    (h : Reaches g s s') : s'.Found g i p x := by
  rcases hfound with ⟨root, ρ, hroot, hρ, hx⟩ | ⟨hdoomed, hx⟩
  · exact .inl ⟨root, ρ, h.grows _ _ _ hroot, h.grows _ _ _ hρ, hx⟩
  · exact .inr ⟨hdoomed.mono h, hx⟩

theorem Polled.mono {received : List (Except GroupError Payload)} (hpolled : s.Polled g i received)
    (h : Reaches g s s') : s'.Polled g i received :=
  fun j x hj => (hpolled j x hj).mono h

theorem Placed.mono {place : Place} (hplaced : s.Placed g i r place) (h : Reaches g s s') :
    s'.Placed g i r place := by
  cases place with
  | entering => exact trivial
  | sending | awaiting => exact hplaced
  | collecting received peer rest => exact ⟨hplaced.1, hplaced.2.1.mono h, hplaced.2.2⟩
  | answering replies peer payload rest => exact ⟨hplaced.1, h.agreed hplaced.2.1, hplaced.2.2⟩
  | abandoning e => exact ⟨hplaced.1, hplaced.2.mono h⟩
  | telling e peer rest => exact ⟨hplaced.1, hplaced.2.1.mono h, hplaced.2.2⟩
  | noting e event rest => exact ⟨hplaced.1, hplaced.2.1.mono h, hplaced.2.2⟩
  | finished x => exact Fate.mono hplaced h

/-! ## What dooms an exchange -/

theorem doomed_of_gone {q : Nat} (hq : q < g.size) {result : Option α}
    (hgone : (s.rank q).stage = .gone result) (hnone : s.offers i q = none) : s.Doomed g i := by
  intro s' h replies hagreed
  obtain ⟨common, hcommon, -⟩ := hagreed
  have hcame := hcommon q hq
  rw [offers, h.rank_eq hgone, ← offers, hnone] at hcame
  cases hcame

theorem doomed_of_mismatch {q : Nat} {root ρ : Offer} (hq : q < g.size)
    (hroot : s.offers i 0 = some root) (hρ : s.offers i q = some ρ)
    (hne : ρ.operation ≠ root.operation) : s.Doomed g i := by
  intro s' h replies hagreed
  obtain ⟨common, hcommon, hoperation, -⟩ := hagreed
  have h0 := hcommon 0 (by omega)
  have hq' := hcommon q hq
  rw [h.grows _ _ _ hroot, Option.some.injEq] at h0
  rw [h.grows _ _ _ hρ, Option.some.injEq] at hq'
  rw [hq', h0] at hne
  exact hne (hoperation q hq)

theorem Polled.heard {received : List (Except GroupError Payload)} (h : s.Polled g i received) :
    s.Heard i received := by
  intro j payload hj
  rcases h j _ hj with ⟨root, ρ, hroot, hρ, hop, hx⟩ | ⟨-, e, hx⟩
  · exact ⟨root, ρ, hroot, hρ, hop, (Except.ok.inj hx).symm⟩
  · cases hx

theorem Polled.doomed {received : List (Except GroupError Payload)} {ρ : Offer} {e : GroupError}
    (hpolled : s.Polled g i received) (hsize : 0 < g.size) (hlength : received.length = g.size - 1)
    (hρ : s.offers i 0 = some ρ) (he : Place.outcome g.size ρ received = .error e) :
    s.Doomed g i := by
  by_cases hbad : ∃ (j : Nat) (e' : GroupError), received[j]? = some (.error e')
  · obtain ⟨j, e', hj⟩ := hbad
    rcases hpolled j _ hj with ⟨_, _, _, _, _, hx⟩ | ⟨hdoomed, -⟩
    · cases hx
    · exact hdoomed
  · -- Everybody contributed, so any later agreement would be on these contributions.
    intro s' h replies hagreed
    obtain ⟨common, hcommon, -, hcombine, hcount⟩ := hagreed
    have hroot := hcommon 0 hsize
    rw [h.grows _ _ _ hρ, Option.some.injEq] at hroot
    have hreceived : received = ((List.range' 1 (g.size - 1)).map fun q =>
        (common q).contribution).map .ok := by
      apply List.ext_getElem?
      intro j
      by_cases hj : j < received.length
      · rcases hpolled j received[j] (by simp [hj]) with ⟨_, ρ', -, hρ', -, hx⟩ | ⟨-, e', hx⟩
        · have hcame := hcommon (j + 1) (by omega)
          rw [h.grows _ _ _ hρ', Option.some.injEq] at hcame
          rw [List.getElem?_eq_getElem hj, hx, hcame]
          simp [show j < g.size - 1 by omega, Nat.add_comm]
        · exact absurd ⟨j, e', by simp [hj, hx]⟩ hbad
      · rw [List.getElem?_eq_none (by omega), List.getElem?_eq_none (by simp; omega)]
    have hall : (List.range g.size).map (fun q => (common q).contribution) =
        ρ.contribution :: (List.range' 1 (g.size - 1)).map fun q => (common q).contribution := by
      obtain ⟨n, hn⟩ : ∃ n, g.size = n + 1 := ⟨g.size - 1, by omega⟩
      rw [hn, List.range_eq_range', List.range'_succ, List.map_cons, hroot]
      rfl
    rw [hall, ← hroot] at hcombine
    rw [outcome_eq_ok_iff.mpr ⟨_, hreceived, hcombine, hcount⟩] at he
    cases he

/-! ## From place to place -/

variable {ρ : Offer}

theorem placed_answerTo {replies : List Payload} {rest : List (Nat × Payload)} (hsize : 0 < g.size)
    (hagreed : Agreed g.size (s.offers i) replies) (hrest : rest <:+ Place.outgoing g.size replies) :
    s.Placed g i 0 (.answerTo replies rest) := by
  cases rest with
  | cons x rest => exact ⟨rfl, hagreed, hrest⟩
  | nil =>
    obtain ⟨-, -, -, -, hlength⟩ := id hagreed
    cases replies with
    | nil => simp at hlength; omega
    | cons payload _ => exact .inl ⟨_, payload, hagreed, rfl, rfl⟩

theorem placed_tellTo {e : GroupError} {rest : List Nat} (hdoomed : s.Doomed g i)
    (hrest : rest <:+ peers g.size) : s.Placed g i 0 (.tellTo e rest) := by
  cases rest with
  | cons peer rest => exact ⟨rfl, hdoomed, hrest⟩
  | nil => exact .inr ⟨hdoomed, e, rfl⟩

theorem placed_collectFrom {received : List (Except GroupError Payload)} {rest : List Nat}
    (hsize : 0 < g.size) (hpolled : s.Polled g i received) (hρ : s.offers i 0 = some ρ)
    (hlength : received.length ≤ g.size - 1)
    (hrest : rest = List.range' (received.length + 1) (g.size - 1 - received.length)) :
    s.Placed g i 0 (.collectFrom g.size ρ received rest) := by
  cases rest with
  | cons peer rest => exact ⟨rfl, hpolled, hrest⟩
  | nil =>
    have hall : received.length = g.size - 1 := by
      have := congrArg List.length hrest
      simp only [List.length_nil, List.length_range'] at this
      omega
    simp only [Place.collectFrom, Place.decide]
    split
    · rename_i e he
      exact ⟨rfl, hpolled.doomed hsize hall hρ he⟩
    · rename_i replies hreplies
      exact placed_answerTo hsize (hpolled.heard.agreed hsize hall hρ hreplies) List.suffix_rfl

theorem Polled.append {received : List (Except GroupError Payload)} {x : Except GroupError Payload}
    (h : s.Polled g i received) (hx : s.Found g i (received.length + 1) x) :
    s.Polled g i (received ++ [x]) :=
  fun _ _ hj => forall_getElem?_concat (P := fun j y => s.Found g i (j + 1) y) h hx hj

theorem placed_append {received : List (Except GroupError Payload)} {rest : List Nat}
    {x : Except GroupError Payload} (hpolled : s.Polled g i received)
    (hρ : s.offers i 0 = some ρ) (hnext : received.length + 1 < g.size)
    (hrest : rest = List.range' (received.length + 1 + 1) (g.size - 1 - (received.length + 1)))
    (hx : s.Found g i (received.length + 1) x) :
    s.Placed g i 0 (.collectFrom g.size ρ (received ++ [x]) rest) := by
  refine placed_collectFrom (by omega) (hpolled.append hx) hρ ?_ ?_
  · rw [List.length_append, List.length_singleton]
    omega
  · rw [hrest, List.length_append, List.length_singleton]

theorem found_contribution {peer : Nat} {f : Frame} (hpeer : peer < g.size)
    (hρ : s.offers i 0 = some ρ) (hf : s.Contribution base peer i f) :
    s.Found g i peer (checked peer (ρ.step (base + i + 1)) f) := by
  obtain ⟨ρ', hρ', rfl⟩ := hf
  by_cases hop : ρ'.operation = ρ.operation
  · exact .inl ⟨ρ, ρ', hρ, hρ', hop, checked_eq_ok_iff.mpr ⟨hop, rfl, rfl⟩⟩
  · refine .inr ⟨doomed_of_mismatch hpeer hρ hρ' hop, ?_⟩
    cases hx : checked peer (ρ.step (base + i + 1)) (ρ'.frame (base + i + 1)) with
    | error e => exact ⟨e, rfl⟩
    | ok payload => exact absurd (checked_eq_ok_iff.mp hx).1 hop

theorem fate_replied {p : Nat} {f : Frame} (hp : p < g.size) (hp0 : p ≠ 0)
    (hρ : s.offers i p = some ρ) (hf : s.Reply g base p i f) :
    s.Fate g i p (replied (base + i + 1) ρ f) := by
  obtain ⟨hseq, ⟨root, hroot, hop⟩, hpayload⟩ := hf
  rcases hpayload with ⟨replies, hagreed, hreply⟩ | ⟨hdoomed, reason, hreason⟩
  · refine .inl ⟨replies, f.payload, hagreed, hreply, ?_⟩
    obtain ⟨common, hcommon, hoperation, -⟩ := hagreed
    have h0 := hcommon 0 (by omega)
    have hcame := hcommon p hp
    rw [hroot, Option.some.injEq] at h0
    rw [hρ, Option.some.injEq] at hcame
    have hfits : checked 0 (ρ.step (base + i + 1)) f = .ok f.payload :=
      checked_eq_ok_iff.mpr ⟨by rw [hop, h0, ← hoperation p hp, ← hcame]; rfl, hseq, rfl⟩
    rw [replied, hfits, award, if_neg hp0]
    rfl
  · refine .inr ⟨hdoomed, ?_⟩
    cases hx : replied (base + i + 1) ρ f with
    | error e => exact ⟨e, rfl⟩
    | ok payload =>
      obtain ⟨-, -, hfound, hno⟩ := replied_eq_ok_iff.mp hx
      exact absurd (hfound ▸ hreason) (hno reason)

end Lagmeter.Assembly
