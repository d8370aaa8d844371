import Lagmeter.Proofs.Feed.Writing
import Lagmeter.Proofs.Node.Series

/-!
# What a writer submits

However the store answers a writer and whatever the clocks show, its setup and its run each submit
one series of versions, or nothing. A failed setup does not keep the writer from its run.
-/

namespace Lagmeter

open Submission Delivery Ledger

/-- The clock showed positive times only. -/
def Ticking (trace : WorkTrace) : Prop :=
  ∀ time : Nat, (⟨.wallClock, time⟩ : (call : WorkCall) × call.Answer) ∈ trace → 0 < time

theorem Ticking.append {before after : WorkTrace} (h : Ticking before) (h' : Ticking after) :
    Ticking (before ++ after) :=
  fun time htime => (List.mem_append.mp htime).elim (h time) (h' time)

theorem ticking_play {α : Type} {behave : (call : WorkCall) → call.Answer} {now : Nat}
    (hbehave : behave .wallClock = now) (hnow : 0 < now) (d : Dialogue Work α) :
    Ticking (d.play behave).1 := by
  induction d with
  | done a => exact nofun
  | ask call next ih =>
    intro time htime
    rcases List.mem_cons.mp htime with heq | htime
    · cases heq
      exact Nat.lt_of_lt_of_eq hnow hbehave.symm
    · exact ih _ time htime

/-- Every sample was submitted with a time that the clock showed. -/
def Stamped (trace : WorkTrace) : Prop := ∀ s ∈ submissions trace,
  (⟨.wallClock, s.sample.writtenAt⟩ : (call : WorkCall) × call.Answer) ∈ trace

theorem Stamped.append {before after : WorkTrace} (h : Stamped before) (h' : Stamped after) :
    Stamped (before ++ after) := by
  intro s hs
  rw [submissions_append] at hs
  rcases List.mem_append.mp hs with hs | hs
  · exact List.mem_append_left _ (h s hs)
  · exact List.mem_append_right _ (h' s hs)

theorem Stamped.positive {trace : WorkTrace} (h : Stamped trace) (hclock : Ticking trace) :
    ∀ p ∈ takenOf (submissions trace), 0 < p.writtenAt := by
  intro p hp
  obtain ⟨s, hs, rfl⟩ := List.mem_map.mp hp
  exact hclock _ (h s (List.mem_filter.mp hs).1)

namespace Writer

/-- What a part of its work makes of a writer. -/
structure Worked (trace : WorkTrace) (w w' : Writer) : Prop where
  settings : w'.settings = w.settings
  failures : w'.failedWrites = w.failedWrites + (submissions trace).countP (!·.taken)
  stamped : Stamped trace

variable {w w' w'' : Writer} {trace before after : WorkTrace} {version left : Nat}
  {plan : WriterSettings}

theorem Worked.trans (h : Worked before w w') (h' : Worked after w' w'') :
    Worked (before ++ after) w w'' where
  settings := h'.settings.trans h.settings
  failures := by
    rw [h'.failures, h.failures, submissions_append, List.countP_append, Nat.add_assoc]
  stamped := h.stamped.append h'.stamped

/-- What calls that submit nothing make of a writer. -/
structure Quiet (trace : WorkTrace) (w w' : Writer) : Prop where
  submits : submissions trace = []
  settings : w'.settings = w.settings
  times : w'.times = w.times
  failures : w'.failedWrites = w.failedWrites

theorem Quiet.worked (h : Quiet trace w w') : Worked trace w w' where
  settings := h.settings
  failures := by
    rw [h.failures, h.submits]
    rfl
  stamped s hs := by
    rw [h.submits] at hs
    cases hs

theorem Worked.cons {x : (call : WorkCall) × call.Answer} (h : Worked trace w w')
    (hx : submission? x = none) : Worked (x :: trace) w w' := by
  have hnone : submissions [x] = [] := by
    rw [submissions, List.filterMap_cons_none hx]
    rfl
  have hquiet : Quiet [x] w w := ⟨hnone, rfl, rfl, rfl⟩
  exact hquiet.worked.trans h

theorem Quiet.tracks {log : List Sample} {bound : Nat} (h : Quiet trace w w')
    (htracks : w.Tracks plan log bound) :
    w'.Tracks plan (log ++ takenOf (submissions trace)) bound := by
  rw [h.submits, show takenOf [] = [] from rfl, List.append_nil]
  exact htracks.same h.settings h.times

theorem Quiet.submissions_append (h : Quiet after w w') (before : WorkTrace) :
    submissions (before ++ after) = submissions before := by
  rw [Lagmeter.submissions_append, h.submits, List.append_nil]

/-! ## One version -/

/-- How the submissions of a version come out, if it may be tried again so many times. -/
inductive Tried (version : Nat) : (left : Nat) → List Submission → Except Fault Nat → Prop where
  | took {left time : Nat} {refused : List Submission} (hrefused : ∀ s ∈ refused, s.Refuses version)
      (hlength : refused.length ≤ left) :
    Tried version left (refused ++ [⟨⟨version, time⟩, true⟩]) (.ok time)
  | gaveUp {left : Nat} {refused : List Submission} {fault : Fault}
      (hrefused : ∀ s ∈ refused, s.Refuses version) (hlength : refused.length = left + 1) :
    Tried version left refused (.error fault)

theorem Tried.atOnce (version left time : Nat) :
    Tried version left [⟨⟨version, time⟩, true⟩] (.ok time) :=
  @Tried.took version left time [] nofun (Nat.zero_le _)

theorem Tried.last (version time : Nat) (fault : Fault) :
    Tried version 0 [⟨⟨version, time⟩, false⟩] (.error fault) :=
  .gaveUp (by simp [Refuses, Submission.version]) rfl

theorem Tried.again {subs : List Submission} {result : Except Fault Nat}
    (h : Tried version left subs result) (time : Nat) :
    Tried version (left + 1) (⟨⟨version, time⟩, false⟩ :: subs) result := by
  have hrefusals {refused : List Submission} (hrefused : ∀ s ∈ refused, s.Refuses version) :
      ∀ s ∈ ⟨⟨version, time⟩, false⟩ :: refused, s.Refuses version := by
    intro s hs
    rcases List.mem_cons.mp hs with rfl | hs
    · exact ⟨rfl, rfl⟩
    · exact hrefused s hs
  cases h with
  | took hrefused hlength =>
    exact @Tried.took version _ _ (⟨⟨version, time⟩, false⟩ :: _) (hrefusals hrefused)
      (Nat.succ_le_succ hlength)
  | gaveUp hrefused hlength => exact .gaveUp (hrefusals hrefused) (congrArg (· + 1) hlength)

/-- The calls of one submission. -/
def submission (p : Sample) (answer : Except StoreError Unit) : WorkTrace :=
  [⟨.wallClock, p.writtenAt⟩, ⟨.store (.publish p), answer⟩]

theorem worked_took (p : Sample) (w : Writer) : Worked (submission p (.ok ())) w w where
  settings := rfl
  failures := rfl
  stamped s hs := by
    obtain rfl := List.mem_singleton.mp hs
    exact List.mem_cons_self

theorem worked_refused (p : Sample) (e : StoreError) (w : Writer) :
    Worked (submission p (.error e)) w w.failed where
  settings := rfl
  failures := rfl
  stamped s hs := by
    obtain rfl := List.mem_singleton.mp hs
    exact List.mem_cons_self

theorem run_publish {result : Except Fault Nat}
    (h : (publish version left w).Run trace (w', result)) :
    Tried version left (submissions trace) result ∧ Worked trace w w' ∧ w'.times = w.times := by
  induction left generalizing w trace with
  | zero =>
    unfold publish at h
    obtain ⟨(now : Nat), rest, rfl, hnow⟩ := Dialogue.Run.of_call h
    obtain ⟨answer, rest, rfl, hanswer⟩ := Dialogue.Run.of_call hnow
    cases answer with
    | ok =>
      cases hanswer
      exact ⟨.atOnce version 0 now, worked_took ⟨version, now⟩ w', rfl⟩
    | error e =>
      cases hanswer
      exact ⟨.last version now _, worked_refused ⟨version, now⟩ e w, rfl⟩
  | succ left ih =>
    unfold publish at h
    obtain ⟨(now : Nat), rest, rfl, hnow⟩ := Dialogue.Run.of_call h
    obtain ⟨answer, rest, rfl, hanswer⟩ := Dialogue.Run.of_call hnow
    cases answer with
    | ok =>
      cases hanswer
      exact ⟨.atOnce version (left + 1) now, worked_took ⟨version, now⟩ w', rfl⟩
    | error e =>
      obtain ⟨_, rest, rfl, hlogged⟩ := Dialogue.Run.of_call hanswer
      obtain ⟨_, rest, rfl, hslept⟩ := Dialogue.Run.of_call hlogged
      obtain ⟨htried, hworked, htimes⟩ := ih hslept
      exact ⟨htried.again now,
        (worked_refused ⟨version, now⟩ e w).trans ((hworked.cons rfl).cons rfl), htimes⟩

/-! ## Bursts -/

theorem run_pace {perInterval remaining : Nat} {b b' : Burst}
    (h : (w.pace perInterval remaining b).Run trace (w', b')) : Quiet trace w w' := by
  unfold pace at h
  split at h
  case isTrue =>
    cases h
    exact ⟨rfl, rfl, rfl, rfl⟩
  case isFalse =>
    obtain ⟨(now : Nat), rest, rfl, hnow⟩ := Dialogue.Run.of_call h
    replace hnow : (if now < b.anchor + w.settings.interval.nanos then _ else _ :
      Dialogue Work (Writer × Burst)).Run rest (w', b') := hnow
    split at hnow
    case isTrue =>
      obtain ⟨_, rest, rfl, hslept⟩ := Dialogue.Run.of_call hnow
      cases hslept
      exact ⟨rfl, rfl, rfl, rfl⟩
    case isFalse =>
      cases hnow
      exact ⟨rfl, rfl, rfl, rfl⟩

theorem worked_recorded (measured : Bool) (version time : Nat) (w : Writer) :
    Worked [] w (if measured then w.record version time else w) := by
  cases measured <;> exact ⟨rfl, rfl, nofun⟩

theorem run_publishAll {measured : Bool} {perInterval remaining : Nat} {b : Burst}
    {result : Except Fault Unit}
    (h : (publishAll measured perInterval remaining version b w).Run trace (w', result)) :
    Series remaining version (submissions trace) result.isOk ∧ Worked trace w w' ∧
    ∀ plan log, w.Tracks plan log version → InRange plan measured version remaining →
      w'.Tracks plan (log ++ takenOf (submissions trace)) (version + remaining) := by
  induction remaining generalizing version b w trace with
  | zero =>
    cases h
    have hquiet : Quiet [] w' w' := ⟨rfl, rfl, rfl, rfl⟩
    exact ⟨.done version, hquiet.worked, fun plan log htracks _ => hquiet.tracks htracks⟩
  | succ remaining ih =>
    unfold publishAll at h
    obtain ⟨first, ⟨w₁, published⟩, rest, hfirst, hrest, rfl⟩ := Dialogue.Run.of_bind h
    obtain ⟨htried, hworked, htimes⟩ := run_publish hfirst
    rw [submissions_append]
    generalize submissions first = subs at htried
    cases htried with
    | gaveUp hrefused hlength =>
      cases hrest
      rw [show submissions [] = [] from rfl, List.append_nil, List.append_nil]
      refine ⟨.gaveUp hrefused hlength, hworked, fun plan log htracks _ => ?_⟩
      rw [Series.takenOf_refused hrefused, List.append_nil]
      exact (htracks.same hworked.settings htimes).mono (Nat.le_add_right ..)
    | @took time refused hrefused hlength =>
      obtain ⟨paced, ⟨w₂, b₂⟩, more, hpaced, hmore, rfl⟩ := Dialogue.Run.of_bind hrest
      have hquiet := run_pace hpaced
      obtain ⟨hseries, hworked', htracks'⟩ := ih hmore
      rw [submissions_append, hquiet.submits, List.nil_append, List.append_assoc,
        List.singleton_append]
      refine ⟨.took hrefused (Nat.lt_of_le_of_lt hlength (by decide)) hseries,
        hworked.trans ((worked_recorded measured version time w₁).trans
          (hquiet.worked.trans hworked')), fun plan log htracks hrange => ?_⟩
      have hfirst := (htracks.same hworked.settings htimes).published hrange time
      have hrest := htracks' plan _ (hfirst.same hquiet.settings hquiet.times) hrange.next.2
      rw [takenOf_append, Series.takenOf_refused hrefused, List.nil_append,
        ← Nat.succ_add_eq_add_succ]
      rwa [List.append_assoc] at hrest

theorem run_writeVersions {measured : Bool} {count : Nat} {result : Except Fault Throughput}
    (h : (w.writeVersions measured count version).Run trace (w', result)) :
    Stretch w.settings count version (submissions trace) result.isOk ∧ Worked trace w w' ∧
    ∀ plan log, w.Tracks plan log version → InRange plan measured version count →
      w'.Tracks plan (log ++ takenOf (submissions trace)) (version + count) := by
  replace h : (if w.settings.perInterval = 0 then _ else _ :
    Dialogue Work (Writer × Except Fault Throughput)).Run trace (w', result) := h
  split at h
  case isTrue hidle =>
    cases h
    have hquiet : Quiet [] w w := ⟨rfl, rfl, rfl, rfl⟩
    exact ⟨.inl ⟨hidle, rfl, rfl⟩, hquiet.worked, fun plan log htracks _ =>
      (hquiet.tracks htracks).mono (Nat.le_add_right ..)⟩
  case isFalse hbusy =>
    obtain ⟨(start : Nat), rest, rfl, hstart⟩ := Dialogue.Run.of_call h
    obtain ⟨(anchor : Nat), rest, rfl, hanchor⟩ := Dialogue.Run.of_call hstart
    obtain ⟨written, ⟨w₁, outcome⟩, more, hwritten, hmore, rfl⟩ := Dialogue.Run.of_bind hanchor
    obtain ⟨hseries, hworked, htracks⟩ := run_publishAll hwritten
    obtain ⟨hlast, hok⟩ : Quiet more w₁ w' ∧ result.isOk = outcome.isOk := by
      cases outcome with
      | error e =>
        cases hmore
        exact ⟨⟨rfl, rfl, rfl, rfl⟩, rfl⟩
      | ok =>
        obtain ⟨finish, rest, rfl, hfinish⟩ := Dialogue.Run.of_call hmore
        cases hfinish
        exact ⟨⟨rfl, rfl, rfl, rfl⟩, rfl⟩
    have hsubs : submissions (⟨.stopwatch, start⟩ :: ⟨.moment, anchor⟩ :: (written ++ more)) =
        submissions written := hlast.submissions_append written
    rw [hsubs, hok]
    exact ⟨.inr ⟨hbusy, hseries⟩, ((hworked.trans hlast.worked).cons rfl).cons rfl,
      fun plan log htracks₀ hrange =>
        (htracks plan log htracks₀ hrange).same hlast.settings hlast.times⟩

/-! ## Phases -/

theorem run_prepare {result : Except Fault Unit} (h : w.prepare.Run trace (w', result)) :
    Quiet trace w w' := by
  obtain ⟨answer, rest, rfl, hanswer⟩ := Dialogue.Run.of_call h
  cases answer with
  | error e =>
    cases hanswer
    exact ⟨rfl, rfl, rfl, rfl⟩
  | ok populated =>
    obtain ⟨_, rest, rfl, hlogged⟩ := Dialogue.Run.of_call hanswer
    obtain ⟨answer, rest, rfl, hchurned⟩ := Dialogue.Run.of_call hlogged
    cases answer with
    | error e =>
      cases hchurned
      exact ⟨rfl, rfl, rfl, rfl⟩
    | ok churned =>
      replace hchurned : (if 0 < churned then _ else _ :
        Dialogue Work (Writer × Except Fault Unit)).Run rest (w', result) := hchurned
      split at hchurned
      case isTrue =>
        obtain ⟨_, rest, rfl, htold⟩ := Dialogue.Run.of_call hchurned
        cases htold
        exact ⟨rfl, rfl, rfl, rfl⟩
      case isFalse =>
        cases hchurned
        exact ⟨rfl, rfl, rfl, rfl⟩

theorem run_endWarmUp {result : Except Fault Unit}
    (h : (Work.wallClock.bind fun finish => .done ({ w with
      warmup := { w.warmup with finish := some finish } }, .ok ())).Run trace (w', result)) :
    Quiet trace w w' := by
  obtain ⟨finish, rest, rfl, hfinish⟩ := Dialogue.Run.of_call h
  cases hfinish
  exact ⟨rfl, rfl, rfl, rfl⟩

theorem run_warmUp {result : Except Fault Unit} (h : w.warmUp.Run trace (w', result)) :
    Part w.settings.warmup 1 (submissions trace) ∧ Worked trace w w' ∧
    ∀ plan log, w.Tracks plan log 1 →
      w'.Tracks plan (log ++ takenOf (submissions trace)) (plan.warmup + 1) := by
  obtain ⟨(start : Nat), rest, rfl, hstart⟩ := Dialogue.Run.of_call h
  replace hstart : (if w.settings.warmup = 0 then _ else _ :
    Dialogue Work (Writer × Except Fault Unit)).Run rest (w', result) := hstart
  let opened : Writer := { w with warmup := { w.warmup with start := some start } }
  have hopened : Quiet [⟨.wallClock, start⟩] w opened := ⟨rfl, rfl, rfl, rfl⟩
  split at hstart
  case isTrue =>
    have hclosed : Quiet rest opened w' := run_endWarmUp hstart
    refine ⟨.inl hclosed.submits, hopened.worked.trans hclosed.worked, fun plan log htracks => ?_⟩
    exact (hclosed.tracks (htracks.same rfl rfl)).mono (by omega)
  case isFalse =>
    obtain ⟨before, ⟨w₁, outcome⟩, after, hbefore, hafter, rfl⟩ := Dialogue.Run.of_bind hstart
    obtain ⟨hstretch, hworked, htracks⟩ := run_writeVersions hbefore
    have hclosed : Quiet after w₁ w' := by
      cases outcome with
      | error e =>
        cases hafter
        exact ⟨rfl, rfl, rfl, rfl⟩
      | ok => exact run_endWarmUp hafter
    have hsubs : submissions (⟨.wallClock, start⟩ :: (before ++ after)) = submissions before :=
      hclosed.submissions_append before
    rw [hsubs]
    refine ⟨hstretch.part, hopened.worked.trans (hworked.trans hclosed.worked),
      fun plan log htracks₀ => ?_⟩
    have hsettings : w.settings = plan := htracks₀.settings
    have hlast := htracks plan log (htracks₀.same rfl rfl)
      (by rw [← hsettings]; exact Nat.le_of_eq (Nat.add_comm ..))
    rw [hsettings, Nat.add_comm] at hlast
    exact hlast.same hclosed.settings hclosed.times

theorem run_setup {result : Except Fault Unit} (h : w.setup.Run trace (w', result)) :
    Part w.settings.warmup 1 (submissions trace) ∧ Worked trace w w' ∧
    ∀ plan log, w.Tracks plan log 1 →
      w'.Tracks plan (log ++ takenOf (submissions trace)) (plan.warmup + 1) := by
  obtain ⟨before, ⟨w₁, outcome⟩, after, hbefore, hafter, rfl⟩ := Dialogue.Run.of_bind h
  have hprepared := run_prepare hbefore
  rw [submissions_append, hprepared.submits, List.nil_append]
  cases outcome with
  | error e =>
    cases hafter
    rw [List.append_nil, show submissions [] = submissions before from hprepared.submits.symm]
    exact ⟨.inl hprepared.submits, hprepared.worked, fun plan log htracks =>
      (hprepared.tracks htracks).mono (by omega)⟩
  | ok =>
    obtain ⟨hpart, hworked, htracks⟩ := run_warmUp hafter
    rw [hprepared.settings] at hpart
    exact ⟨hpart, hprepared.worked.trans hworked, fun plan log htracks₀ =>
      htracks plan log (htracks₀.same hprepared.settings hprepared.times)⟩

theorem run_run {result : Except Fault Unit} (h : w.run.Run trace (w', result)) :
    Stretch w.settings w.settings.writes (w.settings.warmup + 1) (submissions trace) result.isOk ∧
    Worked trace w w' ∧ ∀ plan log, w.Tracks plan log (plan.warmup + 1) →
      w'.Tracks plan (log ++ takenOf (submissions trace)) (plan.warmup + plan.writes + 1) := by
  obtain ⟨(start : Nat), rest, rfl, hstart⟩ := Dialogue.Run.of_call h
  let opened : Writer := { w with measure := { w.measure with start := some start } }
  have hopened : Quiet [⟨.wallClock, start⟩] w opened := ⟨rfl, rfl, rfl, rfl⟩
  obtain ⟨before, ⟨w₁, outcome⟩, after, hbefore, hafter, rfl⟩ := Dialogue.Run.of_bind hstart
  replace hbefore : (opened.writeVersions true w.settings.writes (w.settings.warmup + 1)).Run before
    (w₁, outcome) := hbefore
  obtain ⟨hstretch, hworked, htracks⟩ := run_writeVersions hbefore
  obtain ⟨(finish : Nat), more, rfl, hfinish⟩ := Dialogue.Run.of_call hafter
  obtain ⟨hclosed, hok⟩ : Quiet (⟨.wallClock, finish⟩ :: more) w₁ w' ∧
      result.isOk = outcome.isOk := by
    cases outcome with
    | error e =>
      cases hfinish
      exact ⟨⟨rfl, rfl, rfl, rfl⟩, rfl⟩
    | ok t =>
      obtain ⟨_, rest, rfl, hlogged⟩ := Dialogue.Run.of_call hfinish
      cases hlogged
      exact ⟨⟨rfl, rfl, rfl, rfl⟩, rfl⟩
  have hsubs : submissions (⟨.wallClock, start⟩ :: (before ++ ⟨.wallClock, finish⟩ :: more)) =
      submissions before := hclosed.submissions_append before
  rw [hsubs, hok]
  refine ⟨hstretch, hopened.worked.trans (hworked.trans hclosed.worked), fun plan log htracks₀ => ?_⟩
  rw [htracks₀.settings] at htracks
  have hlast := htracks plan log (htracks₀.same rfl rfl) ⟨by omega, by omega⟩
  exact (hlast.mono (by omega)).same hclosed.settings hclosed.times

end Writer

end Lagmeter
