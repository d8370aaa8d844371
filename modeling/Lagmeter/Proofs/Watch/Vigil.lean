import Lagmeter.Proofs.Feed.Basic
import Lagmeter.Proofs.Watch.Story
import Mathlib.Data.Finset.Erase
import Mathlib.Data.Finset.Insert

/-!
# Vigils

A vigil is a watcher that any number of threads tell of changes, while one waiter waits again and
again. A thread tells in two moves, and calls without a change may come at any time, so that permits
may be left over. However the moves fall, no change is lost: a waiter that sleeps while a change is
pending is about to be called, and the first look after a change finds it.
-/

namespace Lagmeter

/-! ## Steps of a wait -/

namespace Latch

@[simp] theorem pending_call (l : Latch) : l.call.pending = l.pending := by
  unfold call
  split <;> rfl

@[simp] theorem changes_call (l : Latch) : l.call.changes = l.changes := by
  unfold call
  split <;> rfl

theorem called_of_call {l : Latch} (h : l.registration ≠ .away) :
    l.call.registration = .called ∨ l.call.registration = .served := by
  obtain ⟨pending, changes, permit, registration⟩ := l
  cases registration <;> simp_all [call]

@[simp] theorem pending_register (l : Latch) : l.register.pending = l.pending := by
  unfold register
  split <;> rfl

@[simp] theorem changes_register (l : Latch) : l.register.changes = l.changes := by
  unfold register
  split <;> rfl

theorem registration_register (l : Latch) : l.register.registration ≠ .away := by
  unfold register
  split <;> simp

@[simp] theorem pending_leave (l : Latch) : l.leave.pending = l.pending := by
  unfold leave
  split <;> rfl

@[simp] theorem changes_leave (l : Latch) : l.leave.changes = l.changes := by
  unfold leave
  split <;> rfl

/-- The last look of a wait and the end of its registration can be taken for one step. -/
theorem leave_comm (l : Latch) : l.record.leave = l.leave.record ∧ l.call.leave = l.leave.call := by
  obtain ⟨pending, changes, permit, registration⟩ := l
  cases registration <;> exact ⟨rfl, rfl⟩

end Latch

namespace Waiting

/-- What a step of a wait can lead to. -/
inductive Turn (w : Waiting) (now : Nat) (l : Latch) : WaitStep → Prop where
  | register (hstage : w.stage = .registering) :
    Turn w now l (.further { w with stage := .checking } l.register [])
  | miss (hstage : w.stage = .checking) (hpending : l.pending = false) :
    Turn w now l (.further { w with stage := .parked } l [])
  | wake (hstage : w.stage = .parked)
      (hcalled : l.registration = .called ∨ l.registration = .served) :
    Turn w now l (.further { w with stage := .registering } { l with registration := .away } [awake])
  | expire (hstage : w.stage = .parked) (hdeadline : w.deadline ≠ none) :
    Turn w now l (.further { w with stage := .expired } l [])
  | asleep (hstage : w.stage = .parked)
      (hcalled : ¬ (l.registration = .called ∨ l.registration = .served)) : Turn w now l .asleep
  | find (hstage : w.stage = .checking ∨ w.stage = .expired) (hpending : l.pending = true) :
    Turn w now l (.over .updated { l with pending := false }.leave)
  | giveUp (hstage : w.stage = .expired) (hpending : l.pending = false) :
    Turn w now l (.over .timedOut l.leave)

theorem turn_step (w : Waiting) (now : Nat) (l : Latch) : w.Turn now l (w.step now l) := by
  obtain ⟨pending, changes, permit, registration⟩ := l
  unfold step
  cases hstage : w.stage with
  | registering => exact .register hstage
  | checking =>
    cases pending with
    | true => exact .find (.inl hstage) rfl
    | false => exact .miss hstage rfl
  | expired =>
    cases pending with
    | true => exact .find (.inr hstage) rfl
    | false => exact .giveUp hstage rfl
  | parked =>
    cases registration with
    | called => exact .wake hstage (.inl rfl)
    | served => exact .wake hstage (.inr rfl)
    | away | registered =>
      simp only [Latch.answered]
      split
      case isTrue hpast =>
        refine .expire hstage fun hnone => ?_
        simp [hnone] at hpast
      case isFalse => exact .asleep hstage (by simp)

end Waiting

/-! ## Moves -/

structure Vigil where
  watcher : Watcher := {}
  /-- The threads that have recorded a change and not called yet. -/
  calling : Finset Nat := ∅
  /-- What has happened so far, the oldest first. -/
  story : List Incident := []
  deriving DecidableEq

namespace Vigil

inductive Move where
  | record (thread : Nat)
  | call (thread : Nat)
  /-- A call without a change. -/
  | stray
  | begin (now timeout : Nat)
  /-- A step of the wait. -/
  | step (now : Nat)
  deriving DecidableEq

def onLatch (v : Vigil) (change : Latch → Latch) : Vigil :=
  { v with watcher := { v.watcher with latch := change v.watcher.latch } }

def tell (v : Vigil) (d : Incident) : Vigil := { v with story := v.story ++ [d] }

/-- What a step of the waiter adds to the story. -/
def incidents (stage : WaitStage) : WaitStep → List Incident
  | .further .. => if stage = .checking then [.missed] else []
  | .over .updated _ => [.updated]
  | .over .timedOut _ => [.timedOut]
  | .asleep => []

def act (v : Vigil) : Move → Option Vigil
  | .record i => if i ∈ v.calling then none
    else some ({ v with calling := insert i v.calling }.onLatch Latch.record |>.tell (.changed i))
  | .call i => if i ∈ v.calling then
      some ({ v with calling := v.calling.erase i }.onLatch Latch.call)
    else none
  | .stray => some (v.onLatch Latch.call)
  | .begin now timeout => match v.watcher.waiting with
    | none => some ({ v with watcher.waiting := some (Watcher.begin now timeout) }.tell (.began timeout))
    | some _ => none
  | .step now => match v.watcher.waiting with
    | none => none
    | some w =>
      let step := w.step now v.watcher.latch
      let story := v.story ++ incidents w.stage step
      match step with
      | .further w latch _ => some { v with watcher := ⟨latch, some w⟩, story }
      | .over _ latch => some { v with watcher := ⟨latch, none⟩, story }
      | .asleep => none

/-! ## What is kept -/

/-- The waiter was called, or a permit has served it. -/
def Called (v : Vigil) : Prop :=
  v.watcher.latch.registration = .called ∨ v.watcher.latch.registration = .served

/-- What holds of a wait that is on its way. -/
structure Held (v : Vigil) (w : Waiting) : Prop where
  timeout : ∃ timeout, Story.wait? v.story = some timeout ∧ (timeout = 0 → w.deadline = none)
  expired : w.stage = .expired → w.deadline ≠ none
  registered : w.stage ≠ .registering → v.watcher.latch.registration ≠ .away
  called : w.stage = .parked → v.watcher.latch.pending = true → v.calling = ∅ → v.Called

/-- What holds of a vigil at any time. -/
structure Kept (v : Vigil) : Prop where
  credible : Story.Credible v.story
  pending : Story.pending v.story = v.watcher.latch.pending
  changes : v.story.countP Incident.isChange = v.watcher.latch.changes
  idle : v.watcher.waiting = none → Story.wait? v.story = none
  held : ∀ w, v.watcher.waiting = some w → v.Held w

variable {v v' : Vigil} {w : Waiting} {i now timeout : Nat}

theorem kept_new : Kept {} where
  credible := Story.credible_nil
  pending := rfl
  changes := rfl
  idle _ := rfl
  held := by simp

theorem Kept.record (h : v.Kept) (hact : v.act (.record i) = some v') : v'.Kept := by
  simp only [act] at hact
  split at hact
  case isTrue => cases hact
  case isFalse =>
    obtain rfl := Option.some.inj hact
    constructor
    case credible => exact h.credible.concat trivial
    case pending => simp [tell, onLatch, Latch.record, Story.latch]
    case changes => simp [tell, onLatch, Latch.record, Incident.isChange, h.changes]
    case idle => simpa [tell, onLatch, Story.hold] using h.idle
    case held =>
      intro w hw
      have hheld := h.held w hw
      constructor
      case timeout => simpa [tell, onLatch, Story.hold] using hheld.timeout
      case expired => exact hheld.expired
      case registered => exact hheld.registered
      case called =>
        intro _ _ hnone
        simp [tell, onLatch] at hnone

theorem Kept.onCall (h : v.Kept) (calling : Finset Nat) :
    ({ v with calling }.onLatch Latch.call).Kept := by
  constructor
  case credible => exact h.credible
  case pending => simpa [onLatch] using h.pending
  case changes => simpa [onLatch] using h.changes
  case idle => exact h.idle
  case held =>
    intro w hw
    have hheld := h.held w hw
    have hcalled (hstage : w.stage ≠ .registering) :
        ({ v with calling }.onLatch Latch.call).Called :=
      Latch.called_of_call (hheld.registered hstage)
    constructor
    case timeout => exact hheld.timeout
    case expired => exact hheld.expired
    case registered =>
      intro hstage
      rcases hcalled hstage with heq | heq <;> simp [heq]
    case called =>
      intro hstage _ _
      exact hcalled (by simp [hstage])

theorem Kept.call (h : v.Kept) (hact : v.act (.call i) = some v') : v'.Kept := by
  simp only [act] at hact
  split at hact
  case isTrue =>
    obtain rfl := Option.some.inj hact
    exact h.onCall _
  case isFalse => cases hact

theorem Kept.begin (h : v.Kept) (hact : v.act (.begin now timeout) = some v') : v'.Kept := by
  simp only [act] at hact
  split at hact
  case h_2 => cases hact
  case h_1 hnone =>
    obtain rfl := Option.some.inj hact
    constructor
    case credible => exact h.credible.concat (h.idle hnone)
    case pending => simpa [tell, Story.latch] using h.pending
    case changes => simpa [tell, Incident.isChange] using h.changes
    case idle => simp [tell]
    case held =>
      intro w hw
      obtain rfl := Option.some.inj hw
      constructor
      case timeout =>
        refine ⟨timeout, by simp [tell, Story.hold], fun hzero => ?_⟩
        simp [Watcher.begin, hzero]
      case expired => simp [Watcher.begin]
      case registered => exact fun hstage => absurd rfl hstage
      case called => simp [Watcher.begin]

theorem Kept.further (h : v.Kept) (hw : v.watcher.waiting = some w) {w' : Waiting} {latch : Latch}
    (hpending : latch.pending = v.watcher.latch.pending)
    (hchanges : latch.changes = v.watcher.latch.changes) (hdeadline : w'.deadline = w.deadline)
    (hstage : w'.stage ≠ .parked) (hexpired : w'.stage = .expired → w.deadline ≠ none)
    (hregistered : w'.stage ≠ .registering → latch.registration ≠ .away) :
    Kept { v with watcher := ⟨latch, some w'⟩ } where
  credible := h.credible
  pending := h.pending.trans hpending.symm
  changes := h.changes.trans hchanges.symm
  idle := by simp
  held w'' hw'' := by
    obtain rfl := Option.some.inj hw''
    exact {
      timeout := by simpa [hdeadline] using (h.held w hw).timeout
      expired := by simpa [hdeadline] using hexpired
      registered := hregistered
      called := fun hparked => absurd hparked hstage }

theorem Kept.over (h : v.Kept) {d : Incident} (hd : d = .updated ∨ d = .timedOut)
    (hfollows : Story.Follows v.story d) {latch : Latch} (hpending : latch.pending = false)
    (hchanges : latch.changes = v.watcher.latch.changes) :
    Kept { v with watcher := ⟨latch, none⟩, story := v.story ++ [d] } where
  credible := h.credible.concat hfollows
  pending := by rcases hd with rfl | rfl <;> simp [Story.latch, hpending]
  changes := by rcases hd with rfl | rfl <;> simp [Incident.isChange, h.changes, hchanges]
  idle _ := by rcases hd with rfl | rfl <;> simp [Story.hold]
  held := by simp

theorem Kept.step (h : v.Kept) (hact : v.act (.step now) = some v') : v'.Kept := by
  simp only [act] at hact
  split at hact
  case h_1 => cases hact
  case h_2 w hw =>
    have hheld := h.held w hw
    obtain ⟨timeout, htimeout, hdeadline⟩ := hheld.timeout
    have hwait : Story.wait? v.story ≠ none := by simp [htimeout]
    have hturn := w.turn_step now v.watcher.latch
    generalize w.step now v.watcher.latch = step at hact hturn
    cases hturn with
    | register hstage =>
      obtain rfl := Option.some.inj hact
      simp only [incidents, hstage, reduceCtorEq, if_false, List.append_nil]
      exact h.further hw (Latch.pending_register _) (Latch.changes_register _) rfl (by simp) (by simp)
        fun _ => Latch.registration_register _
    | miss hstage hpending =>
      obtain rfl := Option.some.inj hact
      simp only [incidents, hstage, if_true]
      constructor
      case credible => exact h.credible.concat ⟨hwait, h.pending.trans hpending⟩
      case pending => simp [Story.latch, hpending]
      case changes => simpa [Incident.isChange] using h.changes
      case idle => simp
      case held =>
        rintro _ ⟨⟩
        constructor
        case timeout => simpa [Story.hold] using hheld.timeout
        case expired => simp
        case registered => exact fun _ => hheld.registered (by simp [hstage])
        case called =>
          intro _ hnews
          simp [hpending] at hnews
    | wake hstage hcalled =>
      obtain rfl := Option.some.inj hact
      simp only [incidents, hstage, reduceCtorEq, if_false, List.append_nil]
      exact h.further hw rfl rfl rfl (by simp) (by simp) fun hne => absurd rfl hne
    | expire hstage hlimited =>
      obtain rfl := Option.some.inj hact
      simp only [incidents, hstage, reduceCtorEq, if_false, List.append_nil]
      exact h.further hw rfl rfl rfl (by simp) (fun _ => hlimited)
        fun _ => hheld.registered (by simp [hstage])
    | asleep => cases hact
    | find hstage hpending =>
      obtain rfl := Option.some.inj hact
      exact h.over (.inl rfl) ⟨hwait, h.pending.trans hpending⟩ (by simp) (by simp)
    | giveUp hstage hpending =>
      obtain rfl := Option.some.inj hact
      refine h.over (.inr rfl) ⟨hwait, ?_, h.pending.trans hpending⟩ (by simpa using hpending)
        (by simp)
      -- A wait without end has no deadline that it could miss.
      intro hzero
      obtain rfl : timeout = 0 := by simpa [htimeout] using hzero
      exact hheld.expired hstage (hdeadline rfl)

/-- The vigils that moves lead to from a fresh one. -/
def Reachable (v : Vigil) : Prop := Moves.Lead act (fun _ _ => True) {} v

theorem kept_of_reachable (h : v.Reachable) : v.Kept := by
  induction h with
  | refl => exact kept_new
  | tail _ hmove ih =>
    obtain ⟨m, -, hact⟩ := hmove
    cases m with
    | record => exact ih.record hact
    | call => exact ih.call hact
    | stray => exact Option.some.inj hact ▸ ih.onCall _
    | begin => exact ih.begin hact
    | step => exact ih.step hact

/-! ## The waiter alone -/

/-- So many steps of the waiter alone, at the times that a clock shows. -/
def alone (v : Vigil) (clock : Nat → Nat) : Nat → Option Vigil
  | 0 => some v
  | n + 1 => (v.act (.step (clock 0))).bind fun v => v.alone (fun k => clock (k + 1)) n

/-- After so many steps of the waiter alone its wait is over, and it has found a change. -/
def Returns (v : Vigil) (clock : Nat → Nat) (n : Nat) : Prop :=
  ∃ v', v.alone clock n = some v' ∧ v'.watcher.waiting = none ∧ v'.story = v.story ++ [.updated]

theorem Returns.after {clock : Nat → Nat} {n : Nat} (h : v'.Returns (fun k => clock (k + 1)) n)
    (hact : v.act (.step (clock 0)) = some v') (hstory : v'.story = v.story) :
    v.Returns clock (n + 1) := by
  obtain ⟨last, halone, hover, hlast⟩ := h
  refine ⟨last, ?_, hover, by rw [hlast, hstory]⟩
  simpa [alone, hact] using halone

section

variable (hw : v.watcher.waiting = some w) (hpending : v.watcher.latch.pending = true)
  (clock : Nat → Nat)
include hw hpending

theorem returns_of_look (hstage : w.stage = .checking ∨ w.stage = .expired) : v.Returns clock 1 := by
  unfold Returns
  rcases hstage with hstage | hstage <;>
    simp [alone, act, hw, Waiting.step, hstage, Latch.take, hpending, incidents]

theorem returns_of_registering (hstage : w.stage = .registering) : v.Returns clock 2 := by
  let registered : Vigil :=
    { v with watcher := ⟨v.watcher.latch.register, some { w with stage := .checking }⟩ }
  have hact : v.act (.step (clock 0)) = some registered := by
    simp [act, hw, Waiting.step, hstage, incidents, registered]
  have hlook : registered.Returns (fun k => clock (k + 1)) 1 :=
    returns_of_look rfl (by simpa [registered] using hpending) _ (.inl rfl)
  exact hlook.after hact rfl

theorem returns_of_parked (hstage : w.stage = .parked) (hcalled : v.Called) : v.Returns clock 3 := by
  let woken : Vigil :=
    { v with watcher := ⟨{ v.watcher.latch with registration := .away },
      some { w with stage := .registering }⟩ }
  have hact : v.act (.step (clock 0)) = some woken := by
    rcases hcalled with hcalled | hcalled <;>
      simp [act, hw, Waiting.step, hstage, Latch.answered, hcalled, incidents, woken]
  have hnews : woken.watcher.latch.pending = true := hpending
  have hregistering : woken.Returns (fun k => clock (k + 1)) 2 :=
    returns_of_registering rfl hnews _ rfl
  exact hregistering.after hact rfl

end

theorem Kept.returns (h : v.Kept) (hw : v.watcher.waiting = some w)
    (hpending : v.watcher.latch.pending = true) (hquiet : v.calling = ∅) (clock : Nat → Nat) :
    ∃ n ≤ 3, v.Returns clock n := by
  cases hstage : w.stage with
  | registering => exact ⟨2, by omega, returns_of_registering hw hpending clock hstage⟩
  | checking => exact ⟨1, by omega, returns_of_look hw hpending clock (.inl hstage)⟩
  | expired => exact ⟨1, by omega, returns_of_look hw hpending clock (.inr hstage)⟩
  | parked =>
    have hcalled := (h.held w hw).called hstage hpending hquiet
    exact ⟨3, by omega, returns_of_parked hw hpending clock hstage hcalled⟩

/-! ## No change is lost -/

/-- What a vigil is for. -/
structure Vigilant (v : Vigil) : Prop where
  /-- A waiter that sleeps while a change is pending was called, or a thread is about to call. -/
  called : ∀ w, v.watcher.waiting = some w → w.stage = .parked → v.watcher.latch.pending = true →
    v.calling = ∅ → v.Called
  /-- Then it takes three steps at most to come back with the news, whatever the clock shows. -/
  returns : ∀ w, v.watcher.waiting = some w → v.watcher.latch.pending = true → v.calling = ∅ →
    ∀ clock, ∃ n ≤ 3, v.Returns clock n
  /-- The flag is up just in case the story has a change that no look came after. -/
  pending : v.watcher.latch.pending = Story.pending v.story
  updates : v.story.count .updated ≤ v.watcher.latch.changes
  between : ∀ before mid after, v.story = before ++ .updated :: (mid ++ .updated :: after) →
    ∃ i, .changed i ∈ mid
  /-- A wait gives up only if no change is pending, and only if its time has an end. -/
  timedOut : ∀ before after, v.story = before ++ .timedOut :: after →
    Story.pending before = false ∧ ∃ timeout, timeout ≠ 0 ∧ Story.wait? before = some timeout
  /-- The first look after a change ends its wait with the news. -/
  found : ∀ before i mid d after, v.story = before ++ .changed i :: (mid ++ d :: after) →
    (∀ e ∈ mid, e.isLook = false) → d.isLook = true → d = .updated
  /-- Until that look the change stays pending. -/
  latched : ∀ before i after, v.story = before ++ .changed i :: after →
    (∀ e ∈ after, e.isLook = false) → v.watcher.latch.pending = true
  /-- It makes no difference whether others act before or after the end of a registration. -/
  leave : v.watcher.latch.record.leave = v.watcher.latch.leave.record ∧
    v.watcher.latch.call.leave = v.watcher.latch.leave.call

/-- However threads and waits fall, no change is lost and none is taken for two. -/
theorem no_change_lost (h : v.Reachable) : v.Vigilant := by
  have hkept := kept_of_reachable h
  constructor
  case called => exact fun w hw => (hkept.held w hw).called
  case returns => exact fun w hw => hkept.returns hw
  case pending => exact hkept.pending.symm
  case updates =>
    have hcount := hkept.credible.count_updated_le
    rw [hkept.changes] at hcount
    omega
  case between =>
    intro before mid after hstory
    exact (hstory ▸ hkept.credible).exists_change
  case timedOut =>
    intro before after hstory
    obtain ⟨hwait, hlimited, hpending⟩ := hkept.credible before .timedOut after hstory
    obtain ⟨timeout, htimeout⟩ := Option.ne_none_iff_exists'.mp hwait
    exact ⟨hpending, timeout, fun hzero => hlimited (by rw [htimeout, hzero]), htimeout⟩
  case found =>
    intro before i mid d after hstory
    exact (hstory ▸ hkept.credible).updated_of_look
  case latched =>
    intro before i after hstory hunseen
    rw [← hkept.pending, hstory]
    exact Story.pending_of_change hunseen
  case leave => exact Latch.leave_comm _

/-- Two waits come to their ends, and a third is woken in vain before a change comes. -/
def restless : List Move :=
  [.begin 0 0, .step 0, .record 0, .record 1, .call 1, .step 0, .call 0, .begin 0 5, .step 0, .step 0,
    .step 1, .step 1, .step 1, .step 6, .step 6, .stray, .begin 7 9, .step 7, .step 7, .step 7, .step 7,
    .step 7, .record 2, .call 2]

theorem no_change_lost_restless : ∃ v : Vigil, v.Reachable ∧
    v.story = [.began 0, .changed 0, .changed 1, .updated, .began 5, .missed, .missed, .timedOut,
      .began 9, .missed, .missed, .changed 2] ∧
    v.watcher.waiting = some ⟨.parked, some 16⟩ ∧ v.Called ∧ ∃ n ≤ 3, v.Returns id n := by
  have hplay : ((Moves.play? act (fun _ _ => True) {} restless).any fun v => decide
      (v.story = [.began 0, .changed 0, .changed 1, .updated, .began 5, .missed, .missed, .timedOut,
        .began 9, .missed, .missed, .changed 2] ∧ v.watcher.waiting = some ⟨.parked, some 16⟩ ∧
        v.watcher.latch.pending = true ∧ v.calling = ∅)) = true := by
    decide +kernel
  obtain ⟨v, hv, hfacts⟩ := (Option.any_eq_true ..).mp hplay
  obtain ⟨hstory, hwaiting, hpending, hquiet⟩ := of_decide_eq_true hfacts
  have hreachable : v.Reachable := Moves.lead_of_play hv
  have hvigilant := no_change_lost hreachable
  exact ⟨v, hreachable, hstory, hwaiting, hvigilant.called _ hwaiting rfl hpending hquiet,
    hvigilant.returns _ hwaiting hpending hquiet id⟩

end Vigil

end Lagmeter
