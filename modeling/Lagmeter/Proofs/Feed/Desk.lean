import Lagmeter.Proofs.Feed.Rounds

/-!
# Desks

What one move of a reader can do. `Turn` lists the moves, and everything about desks follows from
it: a reader loses a pending change only to an observation, and it knows all that it could read then.
-/

namespace Lagmeter

/-! ## Steps of a wait -/

namespace Waiting

variable {w w' : Waiting} {now : Nat} {l l' : Latch}

theorem of_further {events : List Event} (h : w.step now l = .further w' l' events) :
    l'.pending = l.pending ∧ (w'.stage = .parked → l.pending = false) := by
  unfold step at h
  cases hstage : w.stage with
  | registering =>
    simp only [hstage, WaitStep.further.injEq] at h
    obtain ⟨rfl, rfl, -⟩ := h
    refine ⟨?_, nofun⟩
    unfold Latch.register
    split <;> rfl
  | checking =>
    cases hpending : l.pending with
    | true => simp [hstage, Latch.take, hpending] at h
    | false =>
      simp only [hstage, Latch.take, hpending, WaitStep.further.injEq] at h
      obtain ⟨-, rfl, -⟩ := h
      exact ⟨rfl, fun _ => rfl⟩
  | parked =>
    simp only [hstage] at h
    split at h
    case h_1 latch hanswered =>
      obtain ⟨rfl, rfl, -⟩ := (WaitStep.further.injEq ..).mp h
      refine ⟨?_, nofun⟩
      unfold Latch.answered at hanswered
      split at hanswered <;> cases hanswered <;> rfl
    case h_2 latch hanswered =>
      split at h
      case isTrue =>
        obtain ⟨rfl, rfl, -⟩ := (WaitStep.further.injEq ..).mp h
        refine ⟨?_, nofun⟩
        unfold Latch.answered at hanswered
        split at hanswered <;> cases hanswered
        rfl
      case isFalse => cases h
  | expired =>
    cases hpending : l.pending <;> simp [hstage, Latch.take, hpending] at h

theorem of_over {outcome : WaitOutcome} (h : w.step now l = .over outcome l') :
    outcome = .updated ∨ outcome = .timedOut ∧ l.pending = false := by
  unfold step at h
  cases hstage : w.stage with
  | registering => simp [hstage] at h
  | checking =>
    cases hpending : l.pending with
    | true =>
      simp only [hstage, Latch.take, hpending, WaitStep.over.injEq] at h
      exact .inl h.1.symm
    | false => simp [hstage, Latch.take, hpending] at h
  | parked =>
    simp only [hstage] at h
    split at h
    · cases h
    · split at h <;> cases h
  | expired =>
    cases hpending : l.pending with
    | true =>
      simp only [hstage, Latch.take, hpending, WaitStep.over.injEq] at h
      exact .inl h.1.symm
    | false =>
      simp only [hstage, Latch.take, hpending, WaitStep.over.injEq] at h
      exact .inr ⟨h.1.symm, rfl⟩

end Waiting

namespace Desk

/-- The reader is about to observe. -/
def Observes (k : Desk) : Prop := k.Busy ∧ k.round.Observes

/-- The reader waits, registered, and nobody has called it. -/
def Parked (k : Desk) : Prop :=
  (∃ w, k.watcher.waiting = some w ∧ w.stage = .parked) ∧ k.watcher.latch.registration = .registered

def pending (k : Desk) : Bool := k.watcher.latch.pending

/-! ## Moves -/

/-- What a move does to a desk. -/
inductive Turn (wall : Nat) (latest : Option Sample) (k : Desk) : Move → Desk → Prop where
  | setup (h : k.stage = .subscribed) :
    Turn wall latest k .start { k with stage := .setup, round := k.reader.openSetup }
  | run (h : k.stage = .settled) :
    Turn wall latest k .start { k with stage := .run, round := k.reader.openRun }
  | again (r : Reader) (hbusy : k.Busy) (hround : k.round = .done (.again r)) :
    Turn wall latest k .next
      { k with reader := r, round := if k.stage = .setup then r.setupRound else r.runRound }
  | finish (r : Reader) (result : Except Fault Unit) (hbusy : k.Busy)
      (hround : k.round = .done (.over r result)) :
    Turn wall latest k .next
      { k with reader := r, stage := if k.stage = .setup then .settled else .finished }
  | await (timeout : Span) (go : WaitOutcome → Dialogue Work (Round Reader)) (now : Nat) (k' : Desk)
      (hbusy : k.Busy) (hround : k.round = .ask (WorkCall.await timeout) go)
      (h : k.await timeout go now = some k') : Turn wall latest k (.wait now) k'
  | observe (go : Except StoreError (Option Sample) → Dialogue Work (Round Reader))
      (hbusy : k.Busy) (hround : k.round = .ask (WorkCall.store .observe) go) :
    Turn wall latest k .observe
      { k with round := go (.ok latest), seen := max k.seen (latest.elim 0 Sample.version) }
  | refuse (e : StoreError) (go : Except StoreError (Option Sample) → Dialogue Work (Round Reader))
      (hbusy : k.Busy) (hround : k.round = .ask (WorkCall.store .observe) go) :
    Turn wall latest k (.refuse e) { k with round := go (.error e) }
  | work (clock : Nat) (call : WorkCall) (go : call.Answer → Dialogue Work (Round Reader))
      (a : call.Answer) (hbusy : k.Busy) (hround : k.round = .ask call go)
      (ha : answer? wall k.watcher.latch.changes clock call = some a) :
    Turn wall latest k (.work clock) { k with round := go a }

variable {wall : Nat} {latest : Option Sample} {k k' : Desk} {m : Move}

theorem turn_of_perform {call : WorkCall} {go : call.Answer → Dialogue Work (Round Reader)}
    (hbusy : k.Busy) (hround : k.round = .ask call go)
    (h : k.perform wall latest m call go = some k') : k.Turn wall latest m k' := by
  have hwork {clock : Nat} (h : (answer? wall k.watcher.latch.changes clock call).map
      (fun a => { k with round := go a }) = some k') : k.Turn wall latest (.work clock) k' := by
    obtain ⟨a, ha, rfl⟩ := Option.map_eq_some_iff.mp h
    exact .work clock call go a hbusy hround ha
  cases call with
  | store call =>
    cases call with
    | observe =>
      cases m with
      | observe =>
        cases h
        exact .observe go hbusy hround
      | refuse e =>
        cases h
        exact .refuse e go hbusy hround
      | start | next | wait | work => cases h
    | populate | churn | publish | unsubscribe | entries =>
      cases m with
      | work clock => exact hwork h
      | start | next | wait | observe | refuse => cases h
  | await timeout =>
    cases m with
    | wait now => exact .await timeout go now k' hbusy hround h
    | start | next | observe | refuse | work => cases h
  | changes | sleep | sleepUntil | moment | wallClock | stopwatch | log =>
    cases m with
    | work clock => exact hwork h
    | start | next | wait | observe | refuse => cases h

theorem turn_of_act (h : k.act wall latest m = some k') : k.Turn wall latest m k' := by
  cases m with
  | start =>
    rw [act, opening] at h
    cases hstage : k.stage with
    | subscribed =>
      rw [hstage] at h
      obtain rfl := Option.some.inj h
      exact .setup hstage
    | settled =>
      rw [hstage] at h
      obtain rfl := Option.some.inj h
      exact .run hstage
    | absent | setup | run | finished =>
      rw [hstage] at h
      cases h
  | next =>
    rw [act, another] at h
    split at h
    case h_1 r hstage hround =>
      have hturn : k.Turn wall latest .next _ := .again r (.inl hstage) hround
      rw [if_pos hstage] at hturn
      exact Option.some.inj h ▸ hturn
    case h_2 r result hstage hround =>
      have hturn : k.Turn wall latest .next _ := .finish r result (.inl hstage) hround
      rw [if_pos hstage] at hturn
      exact Option.some.inj h ▸ hturn
    case h_3 r hstage hround =>
      have hturn : k.Turn wall latest .next _ := .again r (.inr hstage) hround
      rw [if_neg (by simp [hstage])] at hturn
      exact Option.some.inj h ▸ hturn
    case h_4 r result hstage hround =>
      have hturn : k.Turn wall latest .next _ := .finish r result (.inr hstage) hround
      rw [if_neg (by simp [hstage])] at hturn
      exact Option.some.inj h ▸ hturn
    case h_5 => cases h
  | wait | observe | refuse | work =>
    simp only [act] at h
    split at h
    case isFalse => cases h
    case isTrue hbusy =>
      split at h
      case h_1 => cases h
      case h_2 call go hround => exact turn_of_perform hbusy hround h

theorem Busy.present (h : k.Busy) : k.stage ≠ .absent := by
  rcases h with hstage | hstage <;> simp [hstage]

theorem Turn.present (h : k.Turn wall latest m k') : k.stage ≠ .absent := by
  cases h with
  | setup hstage | run hstage => simp [hstage]
  | again _ hbusy | finish _ _ hbusy | await _ _ _ _ hbusy | observe _ hbusy | refuse _ _ hbusy
  | work _ _ _ _ hbusy => exact hbusy.present

/-- What a step of the wait does to a desk. -/
inductive Awaits (timeout : Span) (go : WaitOutcome → Dialogue Work (Round Reader)) (now : Nat)
    (k : Desk) : Desk → Prop where
  | start (h : k.watcher.waiting = none) : Awaits timeout go now k
      { k with watcher := { k.watcher with waiting := some (Watcher.begin now timeout.nanos) } }
  | further (w w' : Waiting) (latch : Latch) (events : List Event)
      (hstep : w.step now k.watcher.latch = .further w' latch events) :
    Awaits timeout go now k { k with watcher := ⟨latch, some w'⟩ }
  | finish (w : Waiting) (outcome : WaitOutcome) (latch : Latch)
      (hstep : w.step now k.watcher.latch = .over outcome latch) :
    Awaits timeout go now k { k with watcher := ⟨latch, none⟩, round := go outcome }

theorem awaits_of_await {timeout : Span} {go : WaitOutcome → Dialogue Work (Round Reader)}
    {now : Nat} (h : k.await timeout go now = some k') : k.Awaits timeout go now k' := by
  unfold await at h
  split at h
  case h_1 hnone => exact Option.some.inj h ▸ .start hnone
  case h_2 w _ =>
    split at h
    case h_1 w' latch events hstep => exact Option.some.inj h ▸ .further w w' latch events hstep
    case h_2 outcome latch hstep => exact Option.some.inj h ▸ .finish w outcome latch hstep
    case h_3 => cases h

/-! ## Invariant -/

/-- What a reader has seen is in its accounts, or will be as soon as its round is over. -/
structure Sound (k : Desk) : Prop where
  busy : k.Busy → k.round.Sees k.reader.lastVersion (Reader.Settled (decide (k.stage = .setup))) k.seen
  idle : ¬ k.Busy → k.reader.lastVersion = k.seen
  waiting : k.watcher.waiting ≠ none → k.Busy ∧ ∃ timeout go, k.round = .ask (WorkCall.await timeout) go

theorem sound_subscribed (map : Nat) (name : String) (settings : ReaderSettings) (number : Nat) :
    Sound { stage := .subscribed, reader := .new map name settings number } where
  busy h := by rcases h with h | h <;> cases h
  idle _ := rfl
  waiting h := absurd rfl h

theorem Sound.not_waiting_of_idle (h : k.Sound) (hidle : ¬ k.Busy) : k.watcher.waiting = none := by
  by_contra hwaiting
  exact hidle (h.waiting hwaiting).1

theorem Sound.not_waiting (h : k.Sound)
    (hround : ∀ timeout go, k.round ≠ .ask (WorkCall.await timeout) go) : k.watcher.waiting = none := by
  by_contra hwaiting
  obtain ⟨-, timeout, go, hawait⟩ := h.waiting hwaiting
  exact hround timeout go hawait

theorem Sound.await {timeout : Span} {go : WaitOutcome → Dialogue Work (Round Reader)} {now : Nat}
    (h : k.Sound) (hbusy : k.Busy) (hround : k.round = .ask (WorkCall.await timeout) go)
    (hawaits : k.Awaits timeout go now k') : k'.Sound := by
  cases hawaits with
  | start | further =>
    exact ⟨fun _ => h.busy hbusy, fun hidle => absurd hbusy hidle,
      fun _ => ⟨hbusy, timeout, go, hround⟩⟩
  | finish _ outcome =>
    have hsees := h.busy hbusy
    rw [hround] at hsees
    obtain ⟨-, -, hupdated, htimedOut⟩ := hsees
    refine ⟨fun _ => ?_, fun hidle => absurd hbusy hidle, fun hwaiting => absurd rfl hwaiting⟩
    cases outcome with
    | updated => exact hupdated
    | timedOut => exact htimedOut

theorem Sound.turn (h : k.Sound) (hturn : k.Turn wall latest m k') (hm : ∀ e, m ≠ .refuse e) :
    k'.Sound := by
  cases hturn with
  | setup hstage =>
    have hidle : ¬ k.Busy := by simp [Busy, hstage]
    constructor
    case busy =>
      intro _
      rw [← h.idle hidle]
      exact Reader.sees_openSetup _
    case idle => exact fun hnot => absurd (.inl rfl) hnot
    case waiting => exact fun hwaiting => absurd (h.not_waiting_of_idle hidle) hwaiting
  | run hstage =>
    have hidle : ¬ k.Busy := by simp [Busy, hstage]
    constructor
    case busy =>
      intro _
      rw [← h.idle hidle]
      exact Reader.sees_openRun _
    case idle => exact fun hnot => absurd (.inr rfl) hnot
    case waiting => exact fun hwaiting => absurd (h.not_waiting_of_idle hidle) hwaiting
  | again r hbusy hround =>
    have hsees := h.busy hbusy
    rw [hround] at hsees
    obtain ⟨hlast, hwarmup⟩ := hsees
    constructor
    case busy =>
      intro _
      show Dialogue.Sees r.lastVersion _ k.seen (if _ then _ else _)
      rw [← hlast]
      split
      case isTrue hstage =>
        have hlt : k.seen < r.settings.warmup := hwarmup (decide_eq_true hstage)
        simp only [hstage, decide_true]
        exact Reader.sees_setupRound (by omega)
      case isFalse hstage =>
        simp only [hstage, decide_false]
        exact Reader.sees_runRound r
    case idle => exact fun hnot => absurd hbusy hnot
    case waiting => exact fun hwaiting => absurd (h.not_waiting (by simp [hround])) hwaiting
  | finish r result hbusy hround =>
    have hsees := h.busy hbusy
    rw [hround] at hsees
    have hidle : ¬ Busy { k with
        reader := r, stage := if k.stage = .setup then .settled else .finished } := by
      unfold Busy
      split <;> simp
    constructor
    case busy => exact fun hnot => absurd hnot hidle
    case idle => exact fun _ => hsees
    case waiting => exact fun hwaiting => absurd (h.not_waiting (by simp [hround])) hwaiting
  | await timeout go now _ hbusy hround hawait => exact h.await hbusy hround (awaits_of_await hawait)
  | observe go hbusy hround =>
    have hsees := h.busy hbusy
    rw [hround] at hsees
    have hwaiting := h.not_waiting (hround ▸ nofun)
    exact ⟨fun _ => hsees latest, fun hidle => absurd hbusy hidle, absurd hwaiting⟩
  | refuse e => exact absurd rfl (hm e)
  | work clock call go a hbusy hround ha =>
    have hsees := h.busy hbusy
    rw [hround] at hsees
    have hgo : (go a).Sees k.reader.lastVersion (Reader.Settled (decide (k.stage = .setup))) k.seen := by
      cases call with
      | store | await => cases ha
      | changes | sleep | sleepUntil | moment | wallClock | stopwatch | log => exact hsees a
    have hwaiting := h.not_waiting fun timeout go' hawait => by
      rw [hround] at hawait
      cases hawait
      cases ha
    exact ⟨fun _ => hgo, fun hidle => absurd hbusy hidle, absurd hwaiting⟩

/-! ## What a reader knows -/

/-- What a move keeps of what a reader knows, and of what it is told. -/
structure Keeps (latest : Option Sample) (k k' : Desk) : Prop where
  stage : k'.stage ≠ .absent
  seen : k.seen ≤ k'.seen
  source : k'.seen = k.seen ∨ ∃ p, latest = some p ∧ k'.seen = p.version
  pending : k.pending = true → k'.pending = true ∨ k'.Observes
  observed : k.Observes → latest.elim 0 Sample.version ≤ k'.seen
  parked : k'.Parked → k'.pending = true → k.Parked ∧ k.pending = true

theorem source_observed (k : Desk) (latest : Option Sample) :
    max k.seen (latest.elim 0 Sample.version) = k.seen ∨
      ∃ p, latest = some p ∧ max k.seen (latest.elim 0 Sample.version) = p.version := by
  cases latest with
  | none => exact .inl (Nat.max_zero _)
  | some p =>
    rcases Nat.le_total p.version k.seen with hle | hle
    · exact .inl (Nat.max_eq_left hle)
    · exact .inr ⟨p, rfl, Nat.max_eq_right hle⟩

theorem Sound.keeps_await {timeout : Span} {go : WaitOutcome → Dialogue Work (Round Reader)}
    {now : Nat} (h : k.Sound) (hbusy : k.Busy)
    (hround : k.round = .ask (WorkCall.await timeout) go)
    (hawaits : k.Awaits timeout go now k') : k.Keeps latest k' := by
  have hidle {P : Prop} (hobserves : k.Observes) : P := by
    rw [Observes, hround] at hobserves
    exact absurd hobserves.2 id
  cases hawaits with
  | start =>
    refine ⟨hbusy.present, Nat.le_refl _, .inl rfl, .inl, hidle, ?_⟩
    rintro ⟨⟨w, hw, hstage⟩, -⟩
    cases hw
    cases hstage
  | further _ _ _ _ hstep =>
    obtain ⟨hsame, hasleep⟩ := Waiting.of_further hstep
    refine ⟨hbusy.present, Nat.le_refl _, .inl rfl, fun hp => .inl (hsame.trans hp), hidle, ?_⟩
    rintro ⟨⟨_, ⟨⟩, hstage⟩, -⟩ hp
    rw [pending, hsame, hasleep hstage] at hp
    cases hp
  | finish _ outcome _ hstep =>
    refine ⟨hbusy.present, Nat.le_refl _, .inl rfl, fun hp => ?_, hidle, ?_⟩
    · rcases Waiting.of_over hstep with rfl | ⟨rfl, hnone⟩
      -- After the news the reader observes.
      · have hsees := h.busy hbusy
        rw [hround] at hsees
        exact .inr ⟨hbusy, hsees.2.1⟩
      · rw [pending, hnone] at hp
        cases hp
    · rintro ⟨⟨w, hw, -⟩, -⟩
      cases hw

theorem Sound.keeps (h : k.Sound) (hturn : k.Turn wall latest m k') (hm : ∀ e, m ≠ .refuse e) :
    k.Keeps latest k' := by
  -- A reader that is not about to observe need not observe now.
  have hidle {P : Prop} (hnot : ¬ k.Observes) : k.Observes → P :=
    fun hobserves => absurd hobserves hnot
  cases hturn with
  | setup hstage =>
    exact ⟨nofun, Nat.le_refl _, .inl rfl, .inl, hidle (by simp [Observes, Busy, hstage]),
      fun hp hq => ⟨hp, hq⟩⟩
  | run hstage =>
    exact ⟨nofun, Nat.le_refl _, .inl rfl, .inl, hidle (by simp [Observes, Busy, hstage]),
      fun hp hq => ⟨hp, hq⟩⟩
  | again r hbusy hround =>
    exact ⟨hbusy.present, Nat.le_refl _, .inl rfl, .inl,
      hidle (by simp [Observes, hround, Dialogue.Observes]), fun hp hq => ⟨hp, hq⟩⟩
  | finish r result hbusy hround =>
    refine ⟨?_, Nat.le_refl _, .inl rfl, .inl, hidle (by simp [Observes, hround, Dialogue.Observes]),
      fun hp hq => ⟨hp, hq⟩⟩
    simp only
    split <;> simp
  | observe go hbusy hround =>
    exact ⟨hbusy.present, Nat.le_max_left _ _, source_observed k latest, .inl,
      fun _ => Nat.le_max_right _ _, fun hp hq => ⟨hp, hq⟩⟩
  | refuse e => exact absurd rfl (hm e)
  | work clock call go a hbusy hround ha =>
    refine ⟨hbusy.present, Nat.le_refl _, .inl rfl, .inl, hidle ?_, fun hp hq => ⟨hp, hq⟩⟩
    rintro ⟨-, hobserves⟩
    rw [hround] at hobserves
    cases call with
    | store | await => cases ha
    | changes | sleep | sleepUntil | moment | wallClock | stopwatch | log => cases hobserves
  | await timeout go now _ hbusy hround hawait =>
    exact h.keeps_await hbusy hround (awaits_of_await hawait)

/-- The reader, where it has accounted for all that it has observed: between rounds, and while it
waits. -/
def complete? (k : Desk) : Option Reader :=
  if k.Busy then match k.round with
    | .done (.again r) => some r
    | .done (.over r _) => some r
    | .ask (.await _) _ => some k.reader
    | _ => none
  else some k.reader

theorem Sound.lastVersion_of_complete {r : Reader} (h : k.Sound) (hr : k.complete? = some r) :
    r.lastVersion = k.seen := by
  unfold complete? at hr
  split at hr
  case isFalse hidle =>
    cases hr
    exact h.idle hidle
  case isTrue hbusy =>
    have hsees := h.busy hbusy
    split at hr
    case h_1 hround =>
      cases hr
      rw [hround] at hsees
      exact hsees.1
    case h_2 hround =>
      cases hr
      rw [hround] at hsees
      exact hsees
    case h_3 hround =>
      cases hr
      rw [hround] at hsees
      exact hsees.1.symm
    case h_4 => cases hr

theorem Sound.not_observes_of_parked (h : k.Sound) (hparked : k.Parked) : ¬ k.Observes := by
  obtain ⟨⟨w, hw, -⟩, -⟩ := hparked
  obtain ⟨-, timeout, go, hround⟩ := h.waiting (by simp [hw])
  rintro ⟨-, hobserves⟩
  rw [hround] at hobserves
  cases hobserves

theorem Sound.complete_of_parked (h : k.Sound) (hparked : k.Parked) : k.complete? = some k.reader := by
  obtain ⟨⟨w, hw, -⟩, -⟩ := hparked
  obtain ⟨hbusy, timeout, go, hround⟩ := h.waiting (by simp [hw])
  rw [complete?, if_pos hbusy, hround]

end Desk

end Lagmeter
