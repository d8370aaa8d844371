import Lagmeter.Proofs.Feed.Press

/-!
# Records on a press

Whatever moves in between, the writer and all readers keep records of what was published. What a
reader observes was published, if it is a version at all: nothing else gets into the structure.
-/

namespace Lagmeter

open Delivery Ledger Sample

variable {plan : WriterSettings} {l l' : Ledger}

/-! ## Desks -/

namespace Desk

variable {latest : Option Sample} {k k' : Desk} {m : Move}

/-- The reader at the desk keeps honest records, also in the round that it is at. -/
structure Honest (plan : WriterSettings) (l : Ledger) (k : Desk) : Prop where
  reader : k.reader.Honest plan l
  round : k.Busy →
    k.round.Keeps (Reader.terms (plan.warmup + plan.writes)) (Reader.Recorded plan) l

theorem Honest.drift (h : k.Honest plan l)
    (hdrift : (Reader.terms (plan.warmup + plan.writes)).drift l l') : k.Honest plan l' where
  reader := h.reader.drift hdrift
  round hbusy := (h.round hbusy).drift Reader.drift_trans
    (fun _ hrecorded => Reader.Honest.drift hrecorded hdrift) hdrift

theorem Honest.ended {x : Round Reader} (h : k.Honest plan l) (hbusy : k.Busy)
    (hround : k.round = .done x) : x.state.Honest plan l := by
  have hkeeps := h.round hbusy
  rw [hround] at hkeeps
  exact hkeeps

theorem Honest.answered {call : WorkCall} {go : call.Answer → Dialogue Work (Round Reader)}
    {a : call.Answer} (h : k.Honest plan l) (hsound : l.Sound (plan.warmup + plan.writes))
    (hbusy : k.Busy) (hround : k.round = .ask call go) (ha : l.Allows call a)
    (hafter : l.after call a = l) :
    (go a).Keeps (Reader.terms (plan.warmup + plan.writes)) (Reader.Recorded plan) l := by
  have hkeeps := h.round hbusy
  rw [hround] at hkeeps
  have hnext := (hkeeps l (Reader.drift_refl hsound)).2 a ha
  rwa [hafter] at hnext

theorem Honest.turn (h : k.Honest plan l) (hsound : l.Sound (plan.warmup + plan.writes))
    (hlatest : ∀ p, latest = some p → p.version = 0 ∨ p ∈ l.published)
    (hturn : k.Turn l.wall latest m k') : k'.Honest plan l := by
  cases hturn with
  | setup => exact ⟨h.reader, fun _ => Reader.keeps_openSetup h.reader⟩
  | run => exact ⟨h.reader, fun _ => Reader.keeps_openRun h.reader⟩
  | again r hbusy hround =>
    have hr : r.Honest plan l := h.ended hbusy hround
    refine ⟨hr, fun _ => ?_⟩
    show Dialogue.Keeps _ _ _ (if _ then _ else _)
    split
    · exact Reader.keeps_setupRound hr
    · exact Reader.keeps_runRound hr
  | finish r result hbusy hround =>
    refine ⟨h.ended hbusy hround, fun hidle => ?_⟩
    unfold Busy at hidle
    split at hidle <;> simp at hidle
  | await timeout go now _ hbusy hround hawait =>
    cases awaits_of_await hawait with
    | start | further => exact ⟨h.reader, h.round⟩
    | finish => exact ⟨h.reader, fun _ => h.answered hsound hbusy hround trivial rfl⟩
  | observe go hbusy hround =>
    refine ⟨h.reader, fun _ => h.answered hsound hbusy hround ?_ rfl⟩
    exact fun p hp => hlatest p (Except.ok.inj hp)
  | refuse e go hbusy hround =>
    exact ⟨h.reader, fun _ => h.answered hsound hbusy hround nofun rfl⟩
  | work clock call go a hbusy hround ha =>
    refine ⟨h.reader, fun _ => ?_⟩
    cases call with
    | store | await => cases ha
    | wallClock => exact h.answered hsound hbusy hround (Option.some.inj ha).symm rfl
    | changes | sleep | sleepUntil | moment | stopwatch | log =>
      exact h.answered hsound hbusy hround trivial rfl

end Desk

/-! ## Feeds -/

namespace Feed

variable {s : Structure} {f f' : Feed s} {m : Move s} {i : Nat}

/-- What is in the structure or on its way there was published, if it is a version at all. -/
structure Traced (f : Feed s) : Prop where
  queue : ∀ c ∈ f.replica.queue, ∀ p, carried? s c.change = some p → p.version = 0 ∨ p ∈ f.published
  held : ∀ p, Held s f.replica.contents p → p.version = 0 ∨ p ∈ f.published

theorem Traced.submit {now : Nat} {c : s.Change} (h : f.Traced) (hc : Harmless s c)
    (hact : f.act (.submit now c) = some f') : f'.Traced := by
  cases hact
  refine ⟨fun c' hc' p hp => ?_, h.held⟩
  rcases List.mem_append.mp hc' with hold | hnew
  · exact h.queue c' hold p hp
  · rw [List.mem_singleton.mp hnew] at hp
    exact .inl (hc p hp)

theorem Traced.publish {now : Nat} {q : Sample} (h : f.Traced) (hq : q.Fits)
    (hact : f.act (.publish now q) = some f') : f'.Traced := by
  cases hact
  have hmem {p : Sample} (hp : p.version = 0 ∨ p ∈ f.published) :
      p.version = 0 ∨ p ∈ f.published ++ [q] := hp.imp_right (List.mem_append_left _)
  refine ⟨fun c hc p hp => ?_, fun p hp => hmem (h.held p hp)⟩
  rcases List.mem_append.mp hc with hold | hnew
  · exact hmem (h.queue c hold p hp)
  · rw [List.mem_singleton.mp hnew, carried?_publication hq] at hp
    exact .inr (List.mem_append_right _ (List.mem_singleton.mpr (Option.some.inj hp).symm))

theorem Traced.shared (h : f.Traced) (hm : Press.shared m) (hturn : f.Turn m f') : f'.Traced := by
  cases hturn with
  | tick | subscribe | record | call | desk => exact ⟨h.queue, h.held⟩
  | apply now c rest hduty hqueue =>
    have hold := h.queue
    rw [hqueue] at hold
    refine ⟨fun c' hc' => hold c' (List.mem_cons_of_mem _ hc'), fun p hp => ?_⟩
    rcases held_of_applied hp with hheld | hcarried
    · exact h.held p hheld
    · exact hold c List.mem_cons_self p hcarried
  | submit | publish => cases hm

theorem ledger_of_shared (hm : Press.shared m) (hturn : f.Turn m f') :
    f'.published = f.published ∧ f.wall ≤ f'.wall := by
  cases hturn with
  | tick => exact ⟨rfl, Nat.le_add_right ..⟩
  | subscribe | record | call | desk | apply => exact ⟨rfl, Nat.le_refl _⟩
  | submit | publish => cases hm

def Honest (plan : WriterSettings) (f : Feed s) : Prop :=
  ∀ i, (f.desk i).stage ≠ .absent → (f.desk i).Honest plan f.ledger

theorem Honest.drift (h : f.Honest plan) (hdesk : f'.desk = f.desk)
    (hdrift : (Reader.terms (plan.warmup + plan.writes)).drift f.ledger f'.ledger) :
    f'.Honest plan := by
  intro i
  rw [hdesk]
  exact fun hpresent => (h i hpresent).drift hdrift

theorem Honest.setDesk {k : Desk} (h : f.Honest plan)
    (hk : k.stage ≠ .absent → k.Honest plan f.ledger) : (f.setDesk i k).Honest plan := by
  intro j hpresent
  by_cases hij : j = i
  · subst hij
    rw [desk_setDesk_self] at hpresent ⊢
    exact hk hpresent
  · rw [desk_setDesk_of_ne hij] at hpresent ⊢
    exact h j hpresent

theorem Honest.turn (h : f.Honest plan) (htraced : f.Traced)
    (hsound : f.ledger.Sound (plan.warmup + plan.writes))
    (hsound' : f'.ledger.Sound (plan.warmup + plan.writes)) (hshared : Press.shared m)
    (hfair : f.Fair plan m) (hturn : f.Turn m f') : f'.Honest plan := by
  cases hturn with
  | tick => exact h.drift rfl ⟨List.prefix_rfl, Nat.le_add_right .., hsound'⟩
  | subscribe j map name settings =>
    obtain ⟨hwrites, hwarmup⟩ := hfair
    refine Honest.setDesk (f := { f with replica := _ }) h fun _ => ⟨?_, ?_⟩
    · exact Reader.honest_new map name settings _ hwrites hwarmup
    · rintro (hstage | hstage) <;> cases hstage
  | apply => exact h
  | record j left =>
    exact Honest.setDesk (f := { f with duty := _ }) h
      fun hpresent => ⟨(h j hpresent).reader, (h j hpresent).round⟩
  | call j left =>
    exact Honest.setDesk (f := { f with duty := _ }) h
      fun hpresent => ⟨(h j hpresent).reader, (h j hpresent).round⟩
  | desk j m k hk =>
    refine h.setDesk fun _ => (h j hk.present).turn hsound (fun p hp => ?_) hk
    exact htraced.held p (held_of_latest hp)
  | submit | publish => cases hshared

end Feed

/-! ## The press -/

namespace Press

variable {s : Structure} {keys : List Int} {x x' : Press s} {m : Move s}

/-- The records of the writer and of all readers are those of what was published. -/
structure Sound (plan : WriterSettings) (keys : List Int) (x : Press s) : Prop where
  ledger : x.feed.ledger.Sound (plan.warmup + plan.writes)
  clock : x.feed.wall < 2 ^ 64
  traced : x.feed.Traced
  helper : ∀ changes, x.helper = some changes → ∀ c ∈ changes, Harmless s c
  writer : x.talk.Keeps (Writer.terms (plan.warmup + plan.writes) keys)
    (fun l y => y.1.Tracks plan l.published (plan.warmup + plan.writes + 1)) x.feed.ledger
  readers : x.feed.Honest plan

theorem sound_fresh {wall : Nat} (delay : Span) (map : Nat) (name : String) (hstart : 0 < wall)
    (hwall : wall < 2 ^ 64) : (fresh s wall delay (.new map name keys plan)).Sound plan keys where
  ledger := ⟨.nil, nofun, nofun, hstart⟩
  clock := hwall
  traced := ⟨nofun, fun p hp => absurd hp (not_held_vacant s p)⟩
  helper := nofun
  writer := Writer.keeps_work map name keys plan wall
  readers _ hpresent := absurd rfl hpresent

theorem Sound.asked {call : WorkCall} {next : call.Answer → Dialogue Work (Writer × Except Fault Unit)}
    (h : x.Sound plan keys) (htalk : x.talk = .ask call next) :
    (Writer.terms (plan.warmup + plan.writes) keys).asks x.feed.ledger call ∧
      ∀ a, x.feed.ledger.Allows call a →
        (next a).Keeps (Writer.terms (plan.warmup + plan.writes) keys)
          (fun l y => y.1.Tracks plan l.published (plan.warmup + plan.writes + 1))
          (x.feed.ledger.after call a) := by
  have hkeeps := h.writer
  rw [htalk] at hkeeps
  exact hkeeps _ ⟨rfl, Nat.le_refl _, h.ledger⟩

theorem Sound.feed {m : Feed.Move s} (h : x.Sound plan keys) (hfair : x.feed.Fair plan m)
    (hact : x.act (.feed m) = some x') : x'.Sound plan keys := by
  simp only [act] at hact
  split at hact
  case isFalse => cases hact
  case isTrue hshared =>
    obtain ⟨f', hf', rfl⟩ := Option.map_eq_some_iff.mp hact
    have hturn := Feed.turn_of_act hf'
    obtain ⟨hpublished, hwall⟩ := Feed.ledger_of_shared hshared hturn
    have hledger : f'.ledger.Sound (plan.warmup + plan.writes) := h.ledger.later hpublished hwall
    constructor
    case ledger => exact hledger
    case clock =>
      have hold := h.clock
      cases hturn with
      | tick => exact hfair
      | subscribe | apply | record | call | desk => exact hold
      | submit | publish => cases hshared
    case traced => exact h.traced.shared hshared hturn
    case helper => exact h.helper
    case writer =>
      refine h.writer.drift Writer.drift_trans (fun y hy => ?_) ⟨hpublished, hwall, hledger⟩
      show y.1.Tracks plan f'.published _
      rw [hpublished]
      exact hy
    case readers => exact h.readers.turn h.traced h.ledger hledger hshared hfair hturn

theorem Sound.help {draws : Draws} (h : x.Sound plan keys) (hkeys : Channel.Clear s keys)
    (hact : x.act (.help draws) = some x') : x'.Sound plan keys := by
  simp only [act] at hact
  split at hact
  case h_1 keys' next htalk _ =>
    cases hact
    obtain rfl : keys' = keys := (h.asked htalk).1
    refine { h with helper := ?_ }
    rintro changes ⟨⟩
    exact harmless_populate _ _ hkeys
  case h_2 operations next htalk _ =>
    cases hact
    refine { h with helper := ?_ }
    rintro changes ⟨⟩
    exact harmless_churn s _ _ operations
  case h_3 => cases hact

theorem Sound.queue {now : Nat} (h : x.Sound plan keys) (hact : x.act (.queue now) = some x') :
    x'.Sound plan keys := by
  simp only [act] at hact
  split at hact
  case h_1 c rest hhelper =>
    obtain ⟨f', hf', rfl⟩ := Option.map_eq_some_iff.mp hact
    have hharmless := h.helper _ hhelper
    have htraced := h.traced.submit (hharmless c List.mem_cons_self) hf'
    cases hf'
    refine { h with traced := htraced, helper := ?_ }
    rintro changes ⟨⟩
    exact fun c' hc' => hharmless c' (List.mem_cons_of_mem _ hc')
  case h_2 => cases hact

theorem Sound.helped {call : WorkCall} {next : call.Answer → Dialogue Work (Writer × Except Fault Unit)}
    {a : call.Answer} (h : x.Sound plan keys) (htalk : x.talk = .ask call next)
    (ha : x.feed.ledger.Allows call a) (hafter : x.feed.ledger.after call a = x.feed.ledger) :
    ({ x with talk := next a, helper := none } : Press s).Sound plan keys := by
  have hnext := (h.asked htalk).2 a ha
  rw [hafter] at hnext
  exact { h with writer := hnext, helper := nofun }

theorem Sound.settle (h : x.Sound plan keys) (hact : x.act .settle = some x') :
    x'.Sound plan keys := by
  simp only [act] at hact
  split at hact
  case h_1 keys' next htalk _ _ _ =>
    cases hact
    exact h.helped htalk trivial rfl
  case h_2 operations next htalk _ _ _ =>
    cases hact
    exact h.helped htalk trivial rfl
  case h_3 => cases hact

theorem Sound.fail {e : StoreError} (h : x.Sound plan keys) (hact : x.act (.fail e) = some x') :
    x'.Sound plan keys := by
  simp only [act] at hact
  split at hact
  case h_1 keys' next htalk =>
    cases hact
    exact h.helped htalk trivial rfl
  case h_2 operations next htalk =>
    cases hact
    exact h.helped htalk trivial rfl
  case h_3 p next htalk =>
    cases hact
    exact { h with writer := (h.asked htalk).2 (.error e) trivial }
  case h_4 => cases hact

theorem Sound.publish {now : Nat} (h : x.Sound plan keys)
    (hlimit : plan.warmup + plan.writes < 2 ^ 64) (hact : x.act (.publish now) = some x') :
    x'.Sound plan keys := by
  simp only [act] at hact
  split at hact
  case h_2 => cases hact
  case h_1 p next htalk =>
    obtain ⟨f', hf', rfl⟩ := Option.map_eq_some_iff.mp hact
    obtain ⟨hsound, hnext⟩ := h.asked htalk
    have hsound : (x.feed.ledger.publish p).Sound (plan.warmup + plan.writes) := hsound
    have hlast : p ∈ (x.feed.ledger.publish p).published :=
      List.mem_append_right _ List.mem_cons_self
    have hfits : p.Fits := by
      have hclock := h.clock
      have hversion := hsound.bounded p hlast
      have hwritten : p.writtenAt ≤ x.feed.wall := (hsound.timely p hlast).2
      exact ⟨by omega, by omega⟩
    have htraced := h.traced.publish hfits hf'
    cases hf'
    refine { h with
      ledger := hsound
      traced := htraced
      writer := hnext (.ok ()) trivial
      readers := h.readers.drift rfl ⟨List.prefix_append .., Nat.le_refl _, hsound⟩ }

theorem Sound.work {clock : Nat} (h : x.Sound plan keys) (hact : x.act (.work clock) = some x') :
    x'.Sound plan keys := by
  simp only [act] at hact
  split at hact
  case h_2 => cases hact
  case h_1 call next htalk =>
    obtain ⟨a, ha, rfl⟩ := Option.map_eq_some_iff.mp hact
    have hnext := (h.asked htalk).2 a
    cases call with
    | store | await => cases ha
    | wallClock => exact { h with writer := hnext (Option.some.inj ha).symm }
    | changes | sleep | sleepUntil | moment | stopwatch | log =>
      exact { h with writer := hnext trivial }

theorem Sound.act (h : x.Sound plan keys) (hkeys : Channel.Clear s keys)
    (hlimit : plan.warmup + plan.writes < 2 ^ 64) (hfair : x.Fair plan m)
    (hact : x.act m = some x') : x'.Sound plan keys := by
  cases m with
  | feed => exact h.feed hfair hact
  | help => exact h.help hkeys hact
  | queue => exact h.queue hact
  | settle => exact h.settle hact
  | fail => exact h.fail hact
  | publish => exact h.publish hlimit hact
  | work => exact h.work hact

theorem sound_of_lead {wall map : Nat} {delay : Span} {name : String} (hstart : 0 < wall)
    (hwall : wall < 2 ^ 64) (hkeys : Channel.Clear s keys)
    (hlimit : plan.warmup + plan.writes < 2 ^ 64)
    (h : Moves.Lead Press.act (Fair plan) (fresh s wall delay (.new map name keys plan)) x) :
    x.Sound plan keys := by
  induction h with
  | refl => exact sound_fresh delay map name hstart hwall
  | tail _ hstep ih =>
    obtain ⟨m, hfair, hact⟩ := hstep
    exact ih.act hkeys hlimit hfair hact

end Press

end Lagmeter
