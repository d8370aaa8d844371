import Lagmeter.Proofs.Exchange.Agreement
import Lagmeter.Proofs.Group.Turns

/-!
# Where data comes from

The ranks of a group may follow plans that have nothing to do with each other, and any of them may
vanish or close its link at any moment. Every frame on its way can still be traced to the exchange
that it was sent in, and so whatever an exchange gives is a reply to what all ranks contributed to
that very exchange.
-/

namespace Lagmeter.Assembly

open Exchange

variable {C : Carrier} {J : Interface} {α : Type}

def Awarded (g : Roster) (s : Assembly C J α) (i r : Nat) (payload : Payload) : Prop :=
  ∃ replies, Agreed g.size (s.offers i) replies ∧ replies[r]? = some payload

def Contributed (base : Nat) (s : Assembly C J α) (q : Nat) (f : Frame) : Prop :=
  ∃ i ρ, s.offers i q = some ρ ∧ f = ρ.frame (base + i + 1)

def Answered (g : Roster) (base : Nat) (s : Assembly C J α) (p : Nat) (f : Frame) : Prop :=
  ∃ i ρ, s.offers i 0 = some ρ ∧ f.operation = ρ.operation ∧ f.sequence = base + i + 1 ∧
    ((∃ reason, f.payload = .failure reason) ∨ s.Awarded g i p f.payload)

/-- The root received these from the ranks 1, 2 and so on, in exchange `i`. -/
def Heard (s : Assembly C J α) (i : Nat) (received : List (Except GroupError Payload)) : Prop :=
  ∀ j payload, received[j]? = some (.ok payload) → ∃ root ρ, s.offers i 0 = some root ∧
    s.offers i (j + 1) = some ρ ∧ ρ.operation = root.operation ∧ ρ.contribution = payload

/-- What holds of the place of rank `r` in exchange `i`. -/
def PlaceTraced (g : Roster) (s : Assembly C J α) (i r : Nat) : Place → Prop
  | .entering => True
  | .sending | .awaiting => r ≠ 0
  | .collecting received peer rest => r = 0 ∧ s.Heard i received ∧
      peer :: rest = List.range' (received.length + 1) (g.size - 1 - received.length)
  | .answering replies peer payload rest => r = 0 ∧ Agreed g.size (s.offers i) replies ∧
      ∀ x ∈ (peer, payload) :: rest, replies[x.1]? = some x.2
  | .abandoning _ | .telling _ _ _ | .noting _ _ _ => r = 0
  | .finished result => ∀ payload, result = .ok payload → s.Awarded g i r payload

/-- Everything can be traced: frames, places and results. -/
structure Traced (g : Roster) (base : Nat) (s : Assembly C J α) (transit : Nat → Nat → List Frame)
    (w : Nat → Station) : Prop where
  standing : ∀ q < g.size, (s.rank q).At (g.member q) base (w q)
  contributed : ∀ q < g.size, q ≠ 0 → ∀ f ∈ transit q 0, s.Contributed base q f
  answered : ∀ p < g.size, p ≠ 0 → ∀ f ∈ transit 0 p, s.Answered g base p f
  places : ∀ q < g.size, ∀ place, w q = .within place →
    s.PlaceTraced g (s.rank q).results.length q place
  awarded : ∀ q < g.size, ∀ i payload, (s.rank q).results[i]? = some (.ok payload) →
    s.Awarded g i q payload

/-! ## What was traced stays so -/

variable {g : Roster} {base i r : Nat} {s s' : Assembly C J α}

theorem Awarded.mono {payload : Payload} (h : s.Awarded g i r payload) (hgrows : s.Grows s') :
    s'.Awarded g i r payload := by
  obtain ⟨replies, hagreed, hreply⟩ := h
  exact ⟨replies, hagreed.mono fun q _ ρ => hgrows i q ρ, hreply⟩

theorem Contributed.mono {f : Frame} (h : s.Contributed base r f) (hgrows : s.Grows s') :
    s'.Contributed base r f := by
  obtain ⟨i, ρ, hρ, hf⟩ := h
  exact ⟨i, ρ, hgrows _ _ _ hρ, hf⟩

theorem Answered.mono {f : Frame} (h : s.Answered g base r f) (hgrows : s.Grows s') :
    s'.Answered g base r f := by
  obtain ⟨i, ρ, hρ, hop, hseq, hpayload⟩ := h
  exact ⟨i, ρ, hgrows _ _ _ hρ, hop, hseq, hpayload.imp_right fun h => h.mono hgrows⟩

theorem Heard.mono {received : List (Except GroupError Payload)} (h : s.Heard i received)
    (hgrows : s.Grows s') : s'.Heard i received := by
  intro j payload hj
  obtain ⟨root, ρ, hroot, hρ, hop, hpayload⟩ := h j payload hj
  exact ⟨root, ρ, hgrows _ _ _ hroot, hgrows _ _ _ hρ, hop, hpayload⟩

theorem PlaceTraced.mono {place : Place} (h : s.PlaceTraced g i r place) (hgrows : s.Grows s') :
    s'.PlaceTraced g i r place := by
  cases place with
  | entering => exact trivial
  | sending | awaiting | abandoning _ | telling _ _ _ | noting _ _ _ => exact h
  | collecting received peer rest => exact ⟨h.1, h.2.1.mono hgrows, h.2.2⟩
  | answering replies peer payload rest =>
    exact ⟨h.1, h.2.1.mono fun q _ ρ => hgrows i q ρ, h.2.2⟩
  | finished result => exact fun payload hresult => (h payload hresult).mono hgrows

/-! ## What moves keep -/

/-- What a call brought, if it brought a frame, comes from where it should. -/
def Sourced (g : Roster) (base : Nat) (s : Assembly C J α) (r : Nat) :
    (call : LinkCall) → call.Answer → Prop
  | .receive peer, .ok f => (peer < g.size → peer ≠ 0 → r = 0 → s.Contributed base peer f) ∧
      (r ≠ 0 → peer = 0 → s.Answered g base r f)
  | _, _ => True

variable {ρ : Offer} {place place' : Place} {call : LinkCall} {a : call.Answer}

theorem Heard.agreed {received : List (Except GroupError Payload)} {replies : List Payload}
    (hheard : s.Heard i received) (hsize : 0 < g.size) (hlength : received.length = g.size - 1)
    (hρ : s.offers i 0 = some ρ) (hreplies : Place.outcome g.size ρ received = .ok replies) :
    Agreed g.size (s.offers i) replies := by
  obtain ⟨payloads, rfl, hcombine, hcount⟩ := outcome_eq_ok_iff.mp hreplies
  rw [List.length_map] at hlength
  have hpeer : ∀ (j : Nat) (hj : j < payloads.length), ∃ ρ', s.offers i (j + 1) = some ρ' ∧
      ρ'.operation = ρ.operation ∧ ρ'.contribution = payloads[j] := by
    intro j hj
    obtain ⟨root, ρ', hroot, hρ', hop, hpayload⟩ := hheard j payloads[j] (by simp [hj])
    rw [hρ, Option.some.injEq] at hroot
    exact ⟨ρ', hρ', by rw [hop, hroot], hpayload⟩
  have hcommon : ∀ q < g.size, s.offers i q = some ((s.offers i q).getD ρ) ∧
      ((s.offers i q).getD ρ).operation = ρ.operation ∧
      (ρ.contribution :: payloads)[q]? = some ((s.offers i q).getD ρ).contribution := by
    intro q hq
    cases q with
    | zero => simp [hρ]
    | succ j =>
      obtain ⟨ρ', hρ', hop, hpayload⟩ := hpeer j (by omega)
      simp [hρ', hop, hpayload, show j < payloads.length by omega]
  have hzero : (s.offers i 0).getD ρ = ρ := by simp [hρ]
  refine ⟨fun q => (s.offers i q).getD ρ, fun q hq => (hcommon q hq).1, fun q hq => ?_, ?_, hcount⟩
  · simp only [(hcommon q hq).2.1, hzero]
  · have hlist : ((List.range g.size).map fun q => ((s.offers i q).getD ρ).contribution) =
        ρ.contribution :: payloads := by
      apply List.ext_getElem?
      intro q
      by_cases hq : q < g.size
      · rw [(hcommon q hq).2.2]
        simp [hq]
      · rw [List.getElem?_eq_none (by simp; omega), List.getElem?_eq_none (by simp; omega)]
    simp only [hzero, hlist, hcombine]

theorem placeTraced_answerTo {replies : List Payload} {rest : List (Nat × Payload)}
    (hsize : 0 < g.size) (hagreed : Agreed g.size (s.offers i) replies)
    (hrest : ∀ x ∈ rest, replies[x.1]? = some x.2) :
    s.PlaceTraced g i 0 (.answerTo replies rest) := by
  cases rest with
  | nil =>
    rintro payload ⟨⟩
    refine ⟨replies, hagreed, ?_⟩
    obtain ⟨-, -, -, -, hlength⟩ := hagreed
    cases replies with
    | nil => simp at hlength; omega
    | cons x _ => rfl
  | cons x rest => exact ⟨rfl, hagreed, hrest⟩

theorem placeTraced_tellTo (e : GroupError) (rest : List Nat) :
    s.PlaceTraced g i 0 (.tellTo e rest) := by
  cases rest with
  | nil => rintro payload ⟨⟩
  | cons _ _ => rfl

theorem placeTraced_collectFrom {received : List (Except GroupError Payload)} {rest : List Nat}
    (hsize : 0 < g.size) (hheard : s.Heard i received) (hρ : s.offers i 0 = some ρ)
    (hlength : received.length ≤ g.size - 1)
    (hrest : rest = List.range' (received.length + 1) (g.size - 1 - received.length)) :
    s.PlaceTraced g i 0 (.collectFrom g.size ρ received rest) := by
  cases rest with
  | cons peer rest => exact ⟨rfl, hheard, hrest⟩
  | nil =>
    have hall : received.length = g.size - 1 := by
      have := congrArg List.length hrest
      simp only [List.length_nil, List.length_range'] at this
      omega
    simp only [Place.collectFrom, Place.decide]
    split
    · rfl
    · rename_i replies hreplies
      exact placeTraced_answerTo hsize (hheard.agreed hsize hall hρ hreplies)
        fun x hx => (mem_outgoing hx).2.2

theorem Heard.append {received : List (Except GroupError Payload)} (h : s.Heard i received)
    (hρ : s.offers i 0 = some ρ) (a : Except GroupError Frame)
    (ha : ∀ f, a = .ok f → s.Contributed base (received.length + 1) f) :
    s.Heard i (received ++
      [Except.bind a (checked (received.length + 1) (ρ.step (base + i + 1)))]) := by
  intro j payload hj
  refine forall_getElem?_concat (P := fun j x => ∀ payload, x = .ok payload → ∃ root ρ,
    s.offers i 0 = some root ∧ s.offers i (j + 1) = some ρ ∧ ρ.operation = root.operation ∧
      ρ.contribution = payload) ?_ ?_ hj payload rfl
  · rintro j _ hj payload rfl
    exact h j payload hj
  · intro payload hok
    cases a with
    | error e => cases hok
    | ok f =>
      obtain ⟨hop, hseq, hpayload⟩ := checked_eq_ok_iff.mp hok
      obtain ⟨i', ρ', hρ', rfl⟩ := ha f rfl
      -- The number of a frame tells the exchange.
      obtain rfl : i' = i := by
        have hnumber : base + i' + 1 = base + i + 1 := hseq
        omega
      exact ⟨ρ, ρ', hρ, hρ', hop, hpayload⟩

theorem PlaceTraced.moves (h : s.PlaceTraced g i r place) (hr : r < g.size)
    (hρ : s.offers i r = some ρ) (hmove : Moves (g.member r) (base + i + 1) ρ place call a place')
    (ha : s.Sourced g base r call a) : s.PlaceTraced g i r place' := by
  cases hmove with
  | lead hroot =>
    obtain rfl := Roster.eq_zero_of_isRoot hroot
    exact placeTraced_collectFrom hr (by simp [Heard]) hρ (by simp) rfl
  | follow hroot => exact Roster.ne_zero_of_isRoot hroot
  | contribute => exact h
  | unheard e => rintro payload ⟨⟩
  | reply a =>
    intro payload hpayload
    cases a with
    | error e => cases hpayload
    | ok f =>
      obtain ⟨hop, hseq, rfl, hnofailure⟩ := replied_eq_ok_iff.mp hpayload
      obtain ⟨i', root, hroot, hop', hseq', hanswer⟩ := ha.2 h rfl
      obtain rfl : i' = i := by omega
      rcases hanswer with ⟨reason, hreason⟩ | hawarded
      · exact absurd hreason (hnofailure reason)
      · exact hawarded
  | collect received peer rest a =>
    obtain ⟨rfl, hheard, hrest⟩ := h
    obtain ⟨rfl, hlength, hrest⟩ := next_peer hrest
    refine placeTraced_collectFrom hr (hheard.append hρ a fun f hf => ?_) hρ ?_ ?_
    · subst hf
      exact ha.1 (by omega) (by omega) rfl
    · simp; omega
    · rw [hrest, List.length_append, List.length_singleton]
  | answer replies peer payload rest =>
    obtain ⟨rfl, hagreed, hrest⟩ := h
    exact placeTraced_answerTo hr hagreed fun x hx => hrest x (List.mem_cons_of_mem _ hx)
  | unanswered replies peer payload rest e => rintro payload ⟨⟩
  | abandon e =>
    obtain rfl : r = 0 := h
    exact placeTraced_tellTo e _
  | tell e peer rest =>
    obtain rfl : r = 0 := h
    exact placeTraced_tellTo e _
  | untold e cause peer rest event => exact h
  | note e event rest =>
    obtain rfl : r = 0 := h
    exact placeTraced_tellTo e _

theorem PlaceTraced.sent_up (h : s.PlaceTraced g i r place) (hr : r ≠ 0) {peer : Nat} {f : Frame}
    {a : Except GroupError Unit}
    (hmove : Moves (g.member r) (base + i + 1) ρ place (.send peer f) a place') :
    f = ρ.frame (base + i + 1) := by
  cases hmove with
  | contribute => rfl
  | unheard e => rfl
  | answer replies peer payload rest => exact absurd h.1 hr
  | unanswered replies peer payload rest e => exact absurd h.1 hr
  | tell e peer rest => exact absurd h hr
  | untold e cause peer rest event => exact absurd h hr

theorem PlaceTraced.sent_down (h : s.PlaceTraced g i 0 place) (hρ : s.offers i 0 = some ρ)
    {peer : Nat} {f : Frame} {a : Except GroupError Unit}
    (hmove : Moves (g.member 0) (base + i + 1) ρ place (.send peer f) a place') :
    s.Answered g base peer f := by
  cases hmove with
  | contribute => exact absurd rfl h
  | unheard e => exact absurd rfl h
  | answer replies peer payload rest =>
    exact ⟨i, ρ, hρ, rfl, rfl, .inr ⟨replies, h.2.1, h.2.2 _ List.mem_cons_self⟩⟩
  | unanswered replies peer payload rest e =>
    exact ⟨i, ρ, hρ, rfl, rfl, .inr ⟨replies, h.2.1, h.2.2 _ List.mem_cons_self⟩⟩
  | tell e peer rest => exact ⟨i, ρ, hρ, rfl, rfl, .inl ⟨_, rfl⟩⟩
  | untold e cause peer rest event => exact ⟨i, ρ, hρ, rfl, rfl, .inl ⟨_, rfl⟩⟩

/-! ## Every step -/

variable {transit transit' : Nat → Nat → List Frame} {w : Nat → Station}

/-- A step of rank `r` keeps everything traced if all that is new can be traced. -/
theorem Traced.put (h : Traced g base s transit w) {t' : C.State} {x' : Rank J α} {w' : Station}
    (hat : x'.At (g.member r) base w') (hgrows : (s.rank r).entered <+: x'.entered)
    (hup : ∀ q ≠ 0, ∀ f ∈ transit' q 0, f ∈ transit q 0 ∨
      q = r ∧ (s.put r t' x').Contributed base r f)
    (hdown : ∀ p, ∀ f ∈ transit' 0 p, f ∈ transit 0 p ∨ (s.put r t' x').Answered g base p f)
    (hplace : ∀ place, w' = .within place →
      (s.put r t' x').PlaceTraced g x'.results.length r place)
    (hawarded : ∀ i payload, x'.results[i]? = some (.ok payload) →
      (s.put r t' x').Awarded g i r payload) :
    Traced g base (s.put r t' x') transit' (Function.update w r w') := by
  have hgrows := grows_put (t := t') hgrows
  constructor
  case standing => exact forall_put (P := fun q x w => x.At (g.member q) base w) w w' hat h.standing
  case contributed =>
    intro q hq hq0 f hf
    rcases hup q hq0 f hf with hf | ⟨rfl, hf⟩
    · exact (h.contributed q hq hq0 f hf).mono hgrows
    · exact hf
  case answered =>
    intro p hp hp0 f hf
    rcases hdown p f hf with hf | hf
    · exact (h.answered p hp hp0 f hf).mono hgrows
    · exact hf
  case places =>
    refine forall_put (P := fun q x w => ∀ place, w = .within place →
      (s.put r t' x').PlaceTraced g x.results.length q place) w w' hplace fun q hq place hw => ?_
    exact (h.places q hq place hw).mono hgrows
  case awarded =>
    refine forall_put (P := fun q x _ => ∀ i payload, x.results[i]? = some (.ok payload) →
      (s.put r t' x').Awarded g i q payload) w w' hawarded fun q hq i payload hi => ?_
    exact (h.awarded q hq i payload hi).mono hgrows

theorem Traced.quiet (h : Traced g base s transit w) (hr : r < g.size) {t' : C.State}
    {x' : Rank J α} {w' : Station} (hat : x'.At (g.member r) base w')
    (hentered : x'.entered = (s.rank r).entered) (hresults : x'.results = (s.rank r).results)
    (hcarried : ∀ a b, (transit' a b).Sublist (transit a b)) (hw' : ∀ place, w' ≠ .within place) :
    Traced g base (s.put r t' x') transit' (Function.update w r w') := by
  have hprefix : (s.rank r).entered <+: x'.entered := hentered ▸ List.prefix_rfl
  refine h.put hat hprefix (fun q _ f hf => .inl ((hcarried q 0).subset hf))
    (fun p f hf => .inl ((hcarried 0 p).subset hf)) (fun place hw => absurd hw (hw' place)) ?_
  intro i payload hi
  rw [hresults] at hi
  exact (h.awarded r hr i payload hi).mono (grows_put hprefix)

theorem Traced.sourced (h : Traced g base s transit w) (hr : r < g.size)
    (hcarried : Carrier.Carried transit r call a transit') : s.Sourced g base r call a := by
  cases call with
  | receive peer =>
    cases a with
    | ok f =>
      refine ⟨?_, ?_⟩
      · rintro hpeer hpeer0 rfl
        exact h.contributed peer hpeer hpeer0 f hcarried.received
      · rintro hr0 rfl
        exact h.answered r hr hr0 f hcarried.received
    | error e => exact trivial
  | send peer f => exact trivial
  | close => exact trivial
  | leave => exact trivial
  | log event => exact trivial

theorem Traced.talk (h : Traced g base s transit w) (hr : r < g.size) {t' : C.State}
    {x' : Rank J α} (hwr : w r = .within place) (hat : x'.At (g.member r) base (.within place'))
    (hρ : (s.rank r).entered[(s.rank r).results.length]? = some ρ)
    (hmove : Moves (g.member r) (base + (s.rank r).results.length + 1) ρ place call a place')
    (hcarried : Carrier.Carried transit r call a transit')
    (hentered : x'.entered = (s.rank r).entered) (hresults : x'.results = (s.rank r).results) :
    Traced g base (s.put r t' x') transit' (Function.update w r (.within place')) := by
  have hprefix : (s.rank r).entered <+: x'.entered := hentered ▸ List.prefix_rfl
  have hgrows : s.Grows (s.put r t' x') := grows_put hprefix
  have htraced := h.places r hr place hwr
  refine h.put hat hprefix ?_ ?_ ?_ ?_
  · intro q hq f hf
    rcases hcarried.mem hf with hf | ⟨rfl, rfl⟩
    · exact .inl hf
    · obtain rfl := htraced.sent_up hq hmove
      exact .inr ⟨rfl, (s.rank q).results.length, ρ, hgrows _ _ _ hρ, rfl⟩
  · intro p f hf
    rcases hcarried.mem hf with hf | ⟨rfl, rfl⟩
    · exact .inl hf
    · exact .inr ((htraced.sent_down hρ hmove).mono hgrows)
  · rintro _ ⟨⟩
    rw [hresults]
    exact (htraced.moves hr hρ hmove (h.sourced hr hcarried)).mono hgrows
  · intro i payload hi
    rw [hresults] at hi
    exact (h.awarded r hr i payload hi).mono hgrows

theorem Traced.falter {transit : C.State → Nat → Nat → List Frame} (hC : C.Conveys g.size transit)
    (h : Traced g base s (transit s.carrier) w) (hstep : s.Falter g s') :
    ∃ w', Traced g base s' (transit s'.carrier) w' := by
  obtain ⟨r, hr, t', x', hact | hmishap, rfl⟩ := hstep
  · obtain ⟨w', hat, hshift⟩ := (h.standing r hr).shift hact
    have hprefix := hshift.grows
    refine ⟨Function.update w r w', ?_⟩
    generalize hwr : w r = wr at hshift
    cases hshift with
    | enter ρ _ hentered hresults =>
      refine h.put hat hprefix (fun _ _ _ hf => .inl hf) (fun _ _ hf => .inl hf) ?_ ?_
      · rintro _ ⟨⟩
        exact trivial
      · intro i payload hi
        rw [hresults] at hi
        exact (h.awarded r hr i payload hi).mono (grows_put hprefix)
    | talk ρ place place' call a _ _ hρ hmove ha hentered hresults =>
      exact h.talk hr hwr hat hρ hmove (hC hr ha) hentered hresults
    | conclude result _ hentered hresults =>
      refine h.put hat hprefix (fun _ _ _ hf => .inl hf) (fun _ _ hf => .inl hf) (fun _ hw => by cases hw) ?_
      intro i payload hi
      rw [hresults] at hi
      refine forall_getElem?_concat (P := fun i y => ∀ payload, y = .ok payload →
        (s.put r _ x').Awarded g i r payload) ?_ ?_ hi payload rfl
      · rintro i _ hi payload rfl
        exact (h.awarded r hr i payload hi).mono (grows_put hprefix)
      · intro payload hok
        exact (h.places r hr _ hwr payload hok).mono (grows_put hprefix)
    | other _ hentered hresults =>
      exact h.quiet hr hat hentered hresults (fun _ _ => List.Sublist.refl _) (fun _ hw => by cases hw)
    | leave _ _ ha hentered hresults =>
      exact h.quiet hr hat hentered hresults (hC hr ha) (fun _ hw => by cases hw)
  · have hsequence := (h.standing r hr).sequence
    cases hmishap with
    | vanish _ ha =>
      exact ⟨Function.update w r .gone, h.quiet hr ⟨hsequence, _, rfl⟩ rfl rfl (hC hr ha)
        (fun _ hw => by cases hw)⟩
    | close plan a _ hfree ha =>
      obtain ⟨-, hlength⟩ := (h.standing r hr).of_free hfree
      exact ⟨Function.update w r .between, h.quiet hr ⟨hsequence, ⟨plan, hfree⟩, hlength⟩ rfl rfl
        (hC hr ha) (fun _ hw => by cases hw)⟩

theorem traced_start {transit : C.State → Nat → Nat → List Frame} {t : C.State}
    (ht : ∀ a b, transit t a b = []) (plans : Nat → Plan J α) :
    Traced g base (start t plans base) (transit t) fun _ => .between where
  standing q _ := ⟨rfl, ⟨_, rfl⟩, rfl⟩
  contributed q _ _ f hf := by simp [ht] at hf
  answered p _ _ f hf := by simp [ht] at hf
  places q _ place hw := by cases hw
  awarded q _ i payload hi := by simp [start] at hi

theorem traced_of_falters {transit : C.State → Nat → Nat → List Frame} (hC : C.Conveys g.size transit)
    {t : C.State} (ht : ∀ a b, transit t a b = []) (plans : Nat → Plan J α)
    (hs : Relation.ReflTransGen (Falter g) (start t plans base) s) :
    ∃ w, Traced g base s (transit s.carrier) w := by
  induction hs with
  | refl => exact ⟨_, traced_start ht plans⟩
  | tail _ hstep ih =>
    obtain ⟨w, hw⟩ := ih
    exact hw.falter hC hstep

/-- Nothing is mixed: a payload of exchange `k` is made of what every rank brought to its own exchange `k`.
-/
theorem reply_of_ok {transit : C.State → Nat → Nat → List Frame} (hC : C.Conveys g.size transit)
    {t : C.State} (ht : ∀ a b, transit t a b = []) (plans : Nat → Plan J α)
    (hs : Relation.ReflTransGen (Falter g) (start t plans base) s) {k : Nat} (hr : r < g.size)
    {payload : Payload} (hok : (s.rank r).results[k]? = some (.ok payload)) :
    ∃ offers : Nat → Offer, (∀ q < g.size, (s.rank q).entered[k]? = some (offers q)) ∧
      (∀ q < g.size, (offers q).operation = (offers r).operation) ∧
      ∃ replies, (offers 0).combine ((List.range g.size).map fun q => (offers q).contribution) =
        .ok replies ∧ replies.length = g.size ∧ replies[r]? = some payload := by
  obtain ⟨w, hw⟩ := traced_of_falters hC ht plans hs
  obtain ⟨replies, ⟨offers, hoffers, hoperation, hcombine, hlength⟩, hreply⟩ :=
    hw.awarded r hr k payload hok
  exact ⟨offers, hoffers, fun q hq => by rw [hoperation q hq, hoperation r hr], replies, hcombine,
    hlength, hreply⟩

/-- A pair of ranks that ask for a sum and then for different things. -/
def sumThenApart (r : Nat) : Program (List (Except GroupError Yield)) :=
  if r = 0 then .ofList [.reduce .sum 3 0, .barrier]
  else .ofList [.reduce .sum 4 0, .allGather [5]]

/-- Rank 1 vanishes in its second exchange. -/
def vanishing : Assembly (Mesh.carrier pair.size) Silent (List (Except GroupError Yield)) :=
  ((inProcess pair sumThenApart 0).turns pair (List.replicate 9 [1, 0]).flatten).vanish pair 1

set_option maxRecDepth 10000 in
theorem reply_of_vanishing :
    (vanishing.rank 1).entered.length = 2 ∧
      (vanishing.rank 0).results[0]? = some (.ok (.words [7])) ∧
      ∃ offers : Nat → Offer, (∀ q < 2, (vanishing.rank q).entered[0]? = some (offers q)) ∧
        (∀ q < 2, (offers q).operation = (offers 0).operation) ∧
        ∃ replies, (offers 0).combine ((List.range 2).map fun q => (offers q).contribution) =
          .ok replies ∧ replies.length = 2 ∧ replies[0]? = some (.words [7]) := by
  have hrun : Relation.ReflTransGen (Falter pair) (inProcess pair sumThenApart 0) vanishing :=
    (reaches_turns _ _).falters.trans (falters_vanish _ 1)
  have hresult : (vanishing.rank 0).results[0]? = some (.ok (.words [7])) := rfl
  exact ⟨rfl, hresult,
    reply_of_ok (Mesh.faithful 2).conveys (Mesh.queue_fresh 2) _ hrun (by decide) hresult⟩

end Lagmeter.Assembly
