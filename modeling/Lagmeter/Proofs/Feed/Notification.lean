import Lagmeter.Proofs.Feed.Moves

/-!
# No update is lost

Versions are published in rising order. Then what can be read is the newest that was applied, and a
reader that does not know of it is told of it, or is about to look: each change is told of after it
was applied, and a reader looks after it has taken the news.
-/

namespace Lagmeter

namespace Feed

open Sample

variable {s : Structure}

/-! ## From the queue into the structure -/

def carried (changes : List s.Change) : List Sample := changes.filterMap (carried? s)

theorem carried_append (changes more : List s.Change) :
    carried (changes ++ more) = carried changes ++ carried more := List.filterMap_append

theorem carried_background {c : s.Change} (h : Background s c) : carried [c] = [] :=
  List.filterMap_cons_none (carried?_of_background h)

theorem carried_publication {p : Sample} (h : p.Fits) : carried [p.publication s] = [p] :=
  List.filterMap_cons_some (carried?_publication h s)

theorem mem_carried {c : s.Change} {p : Sample} (h : p ∈ carried [c]) : carried? s c = some p := by
  obtain ⟨c', hc', hp⟩ := List.mem_filterMap.mp h
  rwa [List.mem_singleton.mp hc'] at hp

/-- Samples go through the queue into the structure in the order of their versions, and what can be
read is the newest that has arrived. -/
structure Flow (published : List Sample) (applied queue : List s.Change) (contents : s.Contents) :
    Prop where
  rising : published.Pairwise fun (p q : Sample) => p.version < q.version
  queued : ∀ c ∈ queue, Background s c ∨ ∃ p : Sample, p.Fits ∧ c = p.publication s
  order : published = carried applied ++ carried queue
  held : ∀ p, Held s contents p → p ∈ carried applied
  newest : ∀ p ∈ carried applied, ∃ q, latest? s contents = some q ∧ p.version ≤ q.version

namespace Flow

variable {published : List Sample} {applied queue : List s.Change} {contents : s.Contents}
  {c : s.Change} {p : Sample}

theorem start (s : Structure) : Flow [] ([] : List s.Change) [] s.vacant where
  rising := .nil
  queued := nofun
  order := rfl
  held p h := absurd h (not_held_vacant s p)
  newest := nofun

theorem submit (h : Flow published applied queue contents) (hc : Background s c) :
    Flow published applied (queue ++ [c]) contents where
  rising := h.rising
  queued c' hc' := by
    rcases List.mem_append.mp hc' with hmem | hmem
    · exact h.queued c' hmem
    · rw [List.mem_singleton.mp hmem]
      exact .inl hc
  order := by
    rw [carried_append, carried_background hc, List.append_nil]
    exact h.order
  held := h.held
  newest := h.newest

theorem publish (h : Flow published applied queue contents) (hp : p.Fits)
    (hnew : ∀ q ∈ published, q.version < p.version) :
    Flow (published ++ [p]) applied (queue ++ [p.publication s]) contents where
  rising := by
    refine List.pairwise_append.mpr ⟨h.rising, List.pairwise_singleton _ _, fun q hq p' hp' => ?_⟩
    rw [List.mem_singleton.mp hp']
    exact hnew q hq
  queued c' hc' := by
    rcases List.mem_append.mp hc' with hmem | hmem
    · exact h.queued c' hmem
    · exact .inr ⟨p, hp, List.mem_singleton.mp hmem⟩
  order := by
    rw [carried_append, carried_publication hp, ← List.append_assoc, ← h.order]
  held := h.held
  newest := h.newest

theorem next (h : Flow published applied (c :: queue) contents) :
    Background s c ∨ ∃ p : Sample, p.Fits ∧ c = p.publication s ∧
      ∀ q ∈ carried applied, q.version < p.version := by
  rcases h.queued c List.mem_cons_self with hbackground | ⟨p, hp, rfl⟩
  · exact .inl hbackground
  · refine .inr ⟨p, hp, rfl, fun q hq => ?_⟩
    have hrising := h.rising
    have hqueue : p ∈ carried (p.publication s :: queue) :=
      List.mem_filterMap.mpr ⟨_, List.mem_cons_self, carried?_publication hp s⟩
    rw [h.order] at hrising
    exact (List.pairwise_append.mp hrising).2.2 q hq p hqueue

theorem apply (h : Flow published applied (c :: queue) contents) :
    Flow published (applied ++ [c]) queue (s.applied contents c).1 where
  rising := h.rising
  queued c' hc' := h.queued c' (List.mem_cons_of_mem _ hc')
  order := by
    rw [h.order, ← carried_append, ← carried_append, List.append_cons]
  held p hp := by
    rw [carried_append]
    rcases held_of_applied hp with hold | hcarried
    · exact List.mem_append_left _ (h.held p hold)
    · exact List.mem_append_right _ (List.mem_filterMap.mpr ⟨c, List.mem_cons_self, hcarried⟩)
  newest q hq := by
    rw [carried_append] at hq
    rcases h.next with hbackground | ⟨p, hp, rfl, hnew⟩
    · rw [carried_background hbackground, List.append_nil] at hq
      rw [latest?_of_background hbackground]
      exact h.newest q hq
    · rw [(latest?_of_publication hp fun q hheld => hnew q (h.held q hheld)).1]
      refine ⟨p, rfl, ?_⟩
      rcases List.mem_append.mp hq with hold | hlast
      · exact Nat.le_of_lt (hnew q hold)
      · rw [carried_publication hp] at hlast
        exact Nat.le_of_eq (congrArg Sample.version (List.mem_singleton.mp hlast))

theorem told (h : Flow published applied (c :: queue) contents) (hp : carried? s c = some p) :
    (s.applied contents c).2 = true := by
  rcases h.next with hbackground | ⟨p', hp', rfl, hnew⟩
  · rw [carried?_of_background hbackground] at hp
    cases hp
  · exact (latest?_of_publication hp' fun q hheld => hnew q (h.held q hheld)).2

end Flow

/-! ## Moves -/

/-- The moves that are looked at for a reader: versions rise, the reader is subscribed before the
first of them, and its observations succeed. -/
def Steady (i : Nat) (f : Feed s) : Move s → Prop
  | .submit _ c => Background s c
  | .publish _ p => p.Fits ∧ ∀ q ∈ f.published, q.version < p.version
  | .subscribe j .. => j = i → f.published = []
  | .desk j (.refuse _) => j ≠ i
  | _ => True

instance (i : Nat) (f : Feed s) : (m : Move s) → Decidable (Steady i f m)
  | .submit _ c => inferInstanceAs (Decidable (Background s c))
  | .publish _ p => inferInstanceAs (Decidable (p.Fits ∧ ∀ q ∈ f.published, q.version < p.version))
  | .subscribe j .. => inferInstanceAs (Decidable (j = i → f.published = []))
  | .desk j (.refuse _) => inferInstanceAs (Decidable (j ≠ i))
  | .tick _ | .apply _ | .record | .call => isTrue trivial
  | .desk _ .start | .desk _ .next | .desk _ (.wait _) | .desk _ .observe | .desk _ (.work _) =>
    isTrue trivial

def fresh (wall : Nat) (delay : Span) : Feed s := { wall, delay }

/-- The version of the newest sample that was applied. -/
def newest (f : Feed s) : Nat := (f.samples.map Sample.version).max?.getD 0

variable {i : Nat} {f f' : Feed s} {m : Move s}

/-! ## Invariants -/

def Flows (f : Feed s) : Prop :=
  Flow f.published f.applied (f.replica.queue.map Submitted.change) f.replica.contents

theorem flows_of_turn (h : f.Flows) (hm : Steady i f m) (hturn : f.Turn m f') : f'.Flows := by
  cases hturn with
  | submit now c =>
    unfold Flows
    rw [Replica.submit, List.map_append]
    exact h.submit hm
  | publish now p =>
    unfold Flows
    rw [Replica.submit, List.map_append]
    exact h.publish hm.1 hm.2
  | apply now c rest hduty hqueue =>
    unfold Flows at h
    rw [hqueue, List.map_cons] at h
    exact h.apply
  | tick | subscribe | record | call | desk => exact h

/-- Reader `i` knows of all that was applied, or it is to be told, or it is about to look. -/
structure Heeded (i : Nat) (f : Feed s) : Prop where
  audience : i ∈ f.replica.audience
  sound : (f.desk i).Sound
  source : (f.desk i).seen = 0 ∨ ∃ p ∈ f.samples, p.version = (f.desk i).seen
  told : ∀ p ∈ f.samples, p.version ≤ (f.desk i).seen ∨ (f.desk i).pending = true ∨
    i ∈ f.duty.left ∨ (f.desk i).Observes
  called : (f.desk i).Parked → (f.desk i).pending = true → f.duty.recorded = some i

theorem Heeded.aside (h : Heeded i f) (haudience : i ∈ f'.replica.audience)
    (hsamples : f'.samples = f.samples) (hdesk : f'.desk i = f.desk i)
    (hleft : i ∈ f.duty.left → i ∈ f'.duty.left)
    (hrecorded : f.duty.recorded = some i → f'.duty.recorded = some i) : Heeded i f' := by
  constructor
  case audience => exact haudience
  case sound => exact hdesk ▸ h.sound
  case source =>
    rw [hsamples, hdesk]
    exact h.source
  case told =>
    rw [hsamples, hdesk]
    exact fun p hp => (h.told p hp).imp_right (.imp_right (.imp_left hleft))
  case called =>
    rw [hdesk]
    exact fun hparked hpending => hrecorded (h.called hparked hpending)

theorem Heeded.apply {now : Nat} (h : Heeded i f) (hflows : f.Flows)
    (hturn : f.Turn (.apply now) f') : Heeded i f' := by
  cases hturn with | apply _ c rest hduty hqueue
  unfold Flows at hflows
  rw [hqueue, List.map_cons] at hflows
  constructor
  case audience => exact h.audience
  case sound => exact h.sound
  case source =>
    refine h.source.imp_right ?_
    rintro ⟨p, hp, hversion⟩
    refine ⟨p, ?_, hversion⟩
    show p ∈ carried (f.applied ++ [c.change])
    rw [carried_append]
    exact List.mem_append_left _ hp
  case told =>
    intro p (hp : p ∈ carried (f.applied ++ [c.change]))
    rw [carried_append] at hp
    rcases List.mem_append.mp hp with hold | hnew
    · have hknown := h.told p hold
      rw [hduty] at hknown
      rcases hknown with hseen | hpending | hleft | hobserves
      · exact .inl hseen
      · exact .inr (.inl hpending)
      · cases hleft
      · exact .inr (.inr (.inr hobserves))
    · refine .inr (.inr (.inl ?_))
      simp only [if_pos (hflows.told (mem_carried hnew))]
      exact h.audience
  case called =>
    intro hparked hpending
    have hrecorded := h.called hparked hpending
    rw [hduty] at hrecorded
    cases hrecorded

theorem Heeded.record (h : Heeded i f) (hturn : f.Turn .record f') : Heeded i f' := by
  cases hturn with | record j left hduty
  by_cases hij : i = j
  case pos =>
    subst hij
    constructor
    case audience => exact h.audience
    case sound =>
      rw [desk_setDesk_self]
      exact ⟨h.sound.busy, h.sound.idle, h.sound.waiting⟩
    case source =>
      rw [desk_setDesk_self]
      exact h.source
    case told =>
      intro p hp
      rw [desk_setDesk_self]
      exact .inr (.inl rfl)
    case called => exact fun _ _ => rfl
  case neg =>
    refine h.aside h.audience rfl (desk_setDesk_of_ne hij ..) ?_ ?_
    · rw [hduty]
      exact List.mem_of_ne_of_mem hij
    · rw [hduty]
      exact nofun

theorem not_parked_called (k : Desk) : ¬ (onLatch k Latch.call).Parked := by
  rintro ⟨-, hregistered⟩
  have hcall : k.watcher.latch.call.registration = .registered := hregistered
  unfold Latch.call at hcall
  split at hcall
  case h_1 => cases hcall
  case h_2 hnot => exact hnot hcall

theorem pending_called (k : Desk) : (onLatch k Latch.call).pending = k.pending := by
  show k.watcher.latch.call.pending = k.watcher.latch.pending
  unfold Latch.call
  split <;> rfl

theorem Heeded.call (h : Heeded i f) (hturn : f.Turn .call f') : Heeded i f' := by
  cases hturn with | call j left hduty
  by_cases hij : i = j
  case pos =>
    subst hij
    constructor
    case audience => exact h.audience
    case sound =>
      rw [desk_setDesk_self]
      exact ⟨h.sound.busy, h.sound.idle, h.sound.waiting⟩
    case source =>
      rw [desk_setDesk_self]
      exact h.source
    case told =>
      have htold := h.told
      rw [hduty] at htold
      rw [desk_setDesk_self, pending_called]
      exact htold
    case called =>
      rw [desk_setDesk_self]
      exact fun hparked => absurd hparked (not_parked_called _)
  case neg =>
    refine h.aside h.audience rfl (desk_setDesk_of_ne hij ..) ?_ ?_
    · rw [hduty]
      exact id
    · rw [hduty]
      exact fun hsome => absurd (Option.some.inj hsome).symm hij

theorem Heeded.desk {m : Desk.Move} {k : Desk} (h : Heeded i f) (hflows : f.Flows)
    (hm : ∀ e, m ≠ .refuse e) (hturn : (f.desk i).Turn f.wall f.latest m k) :
    Heeded i (f.setDesk i k) := by
  have hkeeps := h.sound.keeps hturn hm
  constructor
  case audience => exact h.audience
  case sound =>
    rw [desk_setDesk_self]
    exact h.sound.turn hturn hm
  case source =>
    rw [desk_setDesk_self]
    rcases hkeeps.source with hsame | ⟨p, hp, hseen⟩
    · rw [hsame]
      exact h.source
    · exact .inr ⟨p, hflows.held p (held_of_latest hp), hseen.symm⟩
  case told =>
    intro p hp
    rw [desk_setDesk_self]
    rcases h.told p hp with hseen | hpending | hleft | hobserves
    · exact .inl (Nat.le_trans hseen hkeeps.seen)
    · exact .inr ((hkeeps.pending hpending).imp_right .inr)
    · exact .inr (.inr (.inl hleft))
    · obtain ⟨q, hq, hle⟩ := hflows.newest p hp
      have hobserved := hkeeps.observed hobserves
      rw [latest, hq] at hobserved
      exact .inl (Nat.le_trans hle hobserved)
  case called =>
    rw [desk_setDesk_self]
    intro hparked hpending
    obtain ⟨hparked, hpending⟩ := hkeeps.parked hparked hpending
    exact h.called hparked hpending

theorem heeded_subscribe {map : Nat} {name : String} {settings : ReaderSettings} (hflows : f.Flows)
    (hfirst : f.published = []) (hturn : f.Turn (.subscribe i map name settings) f') :
    Heeded i f' := by
  have hnone : f.samples = [] := by
    have horder := hflows.order
    rw [hfirst] at horder
    exact (List.append_eq_nil_iff.mp horder.symm).1
  cases hturn
  constructor
  case audience => exact List.mem_map.mpr ⟨_, List.mem_append_right _ List.mem_cons_self, rfl⟩
  case sound =>
    rw [desk_setDesk_self]
    exact Desk.sound_subscribed ..
  case source =>
    rw [desk_setDesk_self]
    exact .inl rfl
  case told =>
    intro p hp
    have hold : p ∈ f.samples := hp
    rw [hnone] at hold
    cases hold
  case called =>
    rw [desk_setDesk_self]
    rintro ⟨⟨w, hw, -⟩, -⟩
    cases hw

theorem Heeded.turn (h : Heeded i f) (hflows : f.Flows) (hpresent : (f.desk i).stage ≠ .absent)
    (hm : Steady i f m) (hturn : f.Turn m f') : Heeded i f' := by
  cases m with
  | tick | submit | publish =>
    cases hturn
    exact h.aside h.audience rfl rfl id id
  | subscribe j =>
    cases hturn with | subscribe _ _ _ _ habsent
    have hij : i ≠ j := by
      rintro rfl
      exact hpresent habsent
    refine h.aside ?_ rfl (desk_setDesk_of_ne hij ..) id id
    obtain ⟨listener, hmem, hwho⟩ := List.mem_map.mp h.audience
    exact List.mem_map.mpr ⟨listener, List.mem_append_left _ hmem, hwho⟩
  | apply => exact h.apply hflows hturn
  | record => exact h.record hturn
  | call => exact h.call hturn
  | desk j m =>
    cases hturn with | desk _ _ k hk
    by_cases hij : i = j
    · subst hij
      refine h.desk hflows ?_ hk
      rintro e rfl
      exact hm rfl
    · exact h.aside h.audience rfl (desk_setDesk_of_ne hij ..) id id

theorem subscribe_of_turn (habsent : (f.desk i).stage = .absent)
    (hpresent : (f'.desk i).stage ≠ .absent) (hturn : f.Turn m f') :
    ∃ map name settings, m = .subscribe i map name settings := by
  have hsame {j : Nat} {k : Desk} (hk : k.stage = (f.desk j).stage) :
      ((f.setDesk j k).desk i).stage = .absent := by
    by_cases hij : i = j
    · subst hij
      rw [desk_setDesk_self, hk, habsent]
    · rw [desk_setDesk_of_ne hij, habsent]
  cases hturn with
  | tick | submit | publish | apply => exact absurd habsent hpresent
  | subscribe j map name settings =>
    by_cases hij : i = j
    · subst hij
      exact ⟨map, name, settings, rfl⟩
    · rw [desk_setDesk_of_ne hij] at hpresent
      exact absurd habsent hpresent
  | record j => exact absurd (hsame (k := onLatch (f.desk j) Latch.record) rfl) hpresent
  | call j => exact absurd (hsame (k := onLatch (f.desk j) Latch.call) rfl) hpresent
  | desk j m k hk =>
    by_cases hij : i = j
    · subst hij
      exact absurd habsent hk.present
    · rw [desk_setDesk_of_ne hij] at hpresent
      exact absurd habsent hpresent

/-- What holds in every state of a run with a reader for which it is steady. -/
theorem invariant_of_lead {wall : Nat} {delay : Span}
    (h : Moves.Lead act (Steady i) (fresh wall delay) f) :
    f.Flows ∧ ((f.desk i).stage ≠ .absent → Heeded i f) := by
  induction h with
  | refl => exact ⟨.start s, fun hpresent => absurd rfl hpresent⟩
  | @tail f f' _ hstep ih =>
    obtain ⟨m, hm, hact⟩ := hstep
    obtain ⟨hflows, hheeded⟩ := ih
    have hturn := turn_of_act hact
    refine ⟨flows_of_turn hflows hm hturn, fun hpresent => ?_⟩
    by_cases habsent : (f.desk i).stage = .absent
    · obtain ⟨map, name, settings, rfl⟩ := subscribe_of_turn habsent hpresent hturn
      exact heeded_subscribe hflows (hm rfl) hturn
    · exact (hheeded habsent).turn hflows habsent hm hturn

/-! ## The newest version -/

theorem le_newest {p : Sample} (hp : p ∈ f.samples) : p.version ≤ f.newest :=
  List.le_max?_getD_of_mem (List.mem_map_of_mem hp)

theorem newest_source (f : Feed s) : f.newest = 0 ∨ ∃ p ∈ f.samples, p.version = f.newest := by
  unfold newest
  cases hmax : (f.samples.map Sample.version).max? with
  | none => exact .inl rfl
  | some n =>
    obtain ⟨p, hp, hversion⟩ := List.mem_map.mp (List.max?_mem hmax)
    exact .inr ⟨p, hp, hversion⟩

theorem Heeded.told_of_newest (h : Heeded i f) (hseen : (f.desk i).seen < f.newest) :
    (f.desk i).pending = true ∨ i ∈ f.duty.left ∨ (f.desk i).Observes := by
  rcases f.newest_source with hnone | ⟨p, hp, hversion⟩
  · omega
  · rcases h.told p hp with hknown | htold
    · omega
    · exact htold

theorem Heeded.seen_le_newest (h : Heeded i f) : (f.desk i).seen ≤ f.newest := by
  rcases h.source with hnone | ⟨p, hp, hversion⟩
  · omega
  · exact hversion ▸ le_newest hp

theorem Heeded.seen_of_parked (h : Heeded i f) (hparked : (f.desk i).Parked) (hduty : f.duty = {}) :
    (f.desk i).seen = f.newest := by
  refine Nat.le_antisymm h.seen_le_newest (Nat.le_of_not_lt fun hlt => ?_)
  rcases h.told_of_newest hlt with hpending | hleft | hobserves
  · have hrecorded := h.called hparked hpending
    rw [hduty] at hrecorded
    cases hrecorded
  · rw [hduty] at hleft
    cases hleft
  · exact h.sound.not_observes_of_parked hparked hobserves

/-- No reader misses the newest version: while it sleeps and the dispatcher is idle, it knows of it. -/
theorem no_update_lost {wall : Nat} {delay : Span}
    (h : Moves.Lead act (Steady i) (fresh wall delay) f) (hpresent : (f.desk i).stage ≠ .absent) :
    (∀ r, (f.desk i).complete? = some r → r.lastVersion = (f.desk i).seen) ∧
      ((f.desk i).seen < f.newest →
        (f.desk i).pending = true ∨ i ∈ f.duty.left ∨ (f.desk i).Observes) ∧
      ((f.desk i).Parked → f.duty = {} → (f.desk i).reader.lastVersion = f.newest) := by
  have hheeded : Heeded i f := (invariant_of_lead h).2 hpresent
  refine ⟨fun r hr => hheeded.sound.lastVersion_of_complete hr, hheeded.told_of_newest,
    fun hparked hduty => ?_⟩
  have hcomplete := hheeded.sound.complete_of_parked hparked
  rw [hheeded.sound.lastVersion_of_complete hcomplete]
  exact hheeded.seen_of_parked hparked hduty

/-- A reader takes the news of two samples at once, looks, and falls asleep. -/
def nap : List (Move .arpTable) :=
  let wait := .desk 0 (.wait 0)
  let work := .desk 0 (.work 0)
  let tell := [.apply 0, .record, .call]
  [.subscribe 0 0 "arp" ⟨3, 0, ⟨0⟩, false⟩, .desk 0 .start, work, work, work, .desk 0 .next,
    .desk 0 .start, work, .desk 0 .next, wait, .publish 0 ⟨1, 1⟩, .publish 0 ⟨2, 1⟩] ++
    tell ++ tell ++ [wait, wait, .desk 0 .observe, work, .desk 0 .next, wait, wait, wait]

theorem no_update_lost_nap : ∃ f : Feed .arpTable, Moves.Lead act (Steady 0) (fresh 1 ⟨0⟩) f ∧
    (f.desk 0).Parked ∧ f.duty = {} ∧ f.newest = 2 ∧ (f.desk 0).reader.lastVersion = 2 := by
  have hnap : ((Moves.play? act (Steady 0) (fresh 1 ⟨0⟩) nap).any fun f => decide
      ((f.desk 0).stage = .run ∧ f.duty = {} ∧ f.newest = 2 ∧ (f.desk 0).watcher =
        ⟨{ changes := 2, registration := .registered }, some ⟨.parked, none⟩⟩)) = true := by
    decide +kernel
  obtain ⟨f, hplay, hfacts⟩ := (Option.any_eq_true ..).mp hnap
  obtain ⟨hstage, hduty, hnewest, hwatcher⟩ := of_decide_eq_true hfacts
  have hrun := Moves.lead_of_play hplay
  have hpresent : (f.desk 0).stage ≠ .absent := by simp [hstage]
  have hparked : (f.desk 0).Parked := by simp [Desk.Parked, hwatcher]
  obtain ⟨-, -, hlast⟩ := no_update_lost hrun hpresent
  exact ⟨f, hrun, hparked, hduty, hnewest, (hlast hparked hduty).trans hnewest⟩

end Feed

end Lagmeter
