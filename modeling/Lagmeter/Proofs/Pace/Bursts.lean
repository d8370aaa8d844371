import Lagmeter.Proofs.Node.Publishing
import Lagmeter.Proofs.Pace.Timing

/-!
# Bursts in time

A writer goes through its versions in bursts. At the end of a burst it looks at the clock, and waits for
the anchor of the next one or starts that at once.
-/

namespace Lagmeter

open Submission TimedCall

namespace Writer

/-! ## Anchors -/

/-- The anchor of a burst is one interval after the one before, unless the burst in between ended later. -/
def anchor (interval start : Nat) (ends : List Nat) : Nat → Nat
  | 0 => start
  | k + 1 => max (anchor interval start ends k + interval) (ends.getD k 0)

/-- How many bursts ended when the next one was already due. -/
def overruns (interval start : Nat) (ends : List Nat) : Nat :=
  (List.range ends.length).countP fun k => anchor interval start ends k + interval ≤ ends.getD k 0

/-- The anchors that are waited for, each after a burst that ended before it. -/
def alarms (interval start : Nat) (ends : List Nat) : List Nat :=
  ((List.range ends.length).filter fun k => ends.getD k 0 < anchor interval start ends k + interval).map
    fun k => anchor interval start ends k + interval

variable {interval start now : Nat} {ends : List Nat}

@[simp] theorem anchor_zero (interval start : Nat) (ends : List Nat) :
    anchor interval start ends 0 = start := rfl

theorem anchor_cons (interval start now : Nat) (ends : List Nat) (k : Nat) :
    anchor interval start (now :: ends) (k + 1) = anchor interval (max (start + interval) now) ends k := by
  induction k with
  | zero => simp [anchor]
  | succ k ih =>
    unfold anchor
    rw [ih]
    simp

theorem le_anchor (interval start : Nat) (ends : List Nat) (k : Nat) :
    start + k * interval ≤ anchor interval start ends k := by
  induction k with
  | zero => simp [anchor]
  | succ k ih =>
    unfold anchor
    rw [Nat.succ_mul]
    omega

theorem anchor_of_early (h : ∀ k < ends.length, ends.getD k 0 < anchor interval start ends k + interval)
    {k : Nat} (hk : k ≤ ends.length) : anchor interval start ends k = start + k * interval := by
  induction k with
  | zero => simp [anchor]
  | succ k ih =>
    have hlast := h k hk
    unfold anchor
    rw [Nat.succ_mul]
    have := ih (by omega)
    omega

theorem overruns_cons (interval start now : Nat) (ends : List Nat) :
    overruns interval start (now :: ends) =
      (if start + interval ≤ now then 1 else 0) + overruns interval (max (start + interval) now) ends := by
  unfold overruns
  rw [List.length_cons, List.range_succ_eq_map, List.countP_cons, List.countP_map, Nat.add_comm]
  congr 1
  · simp
  · simp [Function.comp_def, anchor_cons]

theorem alarms_cons (interval start now : Nat) (ends : List Nat) :
    alarms interval start (now :: ends) =
      (if now < start + interval then [start + interval] else []) ++
        alarms interval (max (start + interval) now) ends := by
  unfold alarms
  rw [List.length_cons, List.range_succ_eq_map, List.filter_cons, List.filter_map]
  by_cases h : now < start + interval
  · simp [h, Function.comp_def, anchor_cons]
  · simp [h, Function.comp_def, anchor_cons]

/-! ## The course of the bursts -/

/-- The calls for one version. -/
inductive Tries (version : Nat) : List TimedCall → Prop where
  | last {clock attempt : TimedCall} (hclock : clock.beat = .other)
      (hattempt : attempt.beat = .attempt version) : Tries version [clock, attempt]
  | again {clock attempt warning pause : TimedCall} {calls : List TimedCall} {time : Span}
      (hclock : clock.beat = .other) (hattempt : attempt.beat = .attempt version)
      (hwarning : warning.beat = .other) (hpause : pause.beat = .nap time) (h : Tries version calls) :
    Tries version (clock :: attempt :: warning :: pause :: calls)

/-- The wait for an anchor after a look at the clock. -/
inductive Wait (next now : Nat) : List TimedCall → Prop where
  | slept {pause : TimedCall} (hearly : now < next) (hpause : pause.beat = .alarm next) :
    Wait next now [pause]
  | skipped (hlate : next ≤ now) : Wait next now []

/-- The calls for so many versions from one on, within a burst. The bursts end at the moments `ends`, and
`taken` versions are published. -/
inductive Paced (perInterval interval : Nat) : (remaining version : Nat) → Burst → List TimedCall →
    (ends : List Nat) → (taken : Nat) → Prop where
  | done (version : Nat) (b : Burst) : Paced perInterval interval 0 version b [] [] 0
  | gaveUp {remaining version : Nat} {b : Burst} {calls : List TimedCall} (htries : Tries version calls) :
    Paced perInterval interval (remaining + 1) version b calls [] 0
  | within {remaining version : Nat} {b : Burst} {tries calls : List TimedCall} {ends : List Nat}
      {taken : Nat} (htries : Tries version tries) (hroom : b.written + 1 < perInterval ∨ remaining = 0)
      (h : Paced perInterval interval remaining (version + 1) ⟨b.anchor, b.written + 1⟩ calls ends taken) :
    Paced perInterval interval (remaining + 1) version b (tries ++ calls) ends (taken + 1)
  | rested {remaining version now : Nat} {b : Burst} {tries wait calls : List TimedCall}
      {look : TimedCall} {ends : List Nat} {taken : Nat} (htries : Tries version tries)
      (hfull : perInterval ≤ b.written + 1) (hmore : remaining ≠ 0) (hlook : look.beat = .look now)
      (hwait : Wait (b.anchor + interval) now wait)
      (h : Paced perInterval interval remaining (version + 1) ⟨max (b.anchor + interval) now, 0⟩ calls
        ends taken) :
    Paced perInterval interval (remaining + 1) version b (tries ++ look :: (wait ++ calls)) (now :: ends)
      (taken + 1)

/-! ## Runs -/

variable {w w' : Writer} {version left : Nat} {calls : List TimedCall}

theorem tries_publish {result : Except Fault Nat}
    (h : (publish version left w).Run (calls.map entry) (w', result)) :
    Tries version calls ∧ w'.skippedSleeps = w.skippedSleeps := by
  induction left generalizing w calls with
  | zero =>
    unfold publish at h
    obtain ⟨clock, now, rest, rfl, hclock, h⟩ := of_call h
    obtain ⟨attempt, answer, rest, rfl, hattempt, h⟩ := of_call h
    have htries : Tries version [clock, attempt] :=
      .last (congrArg beatOf hclock) (congrArg beatOf hattempt)
    cases answer with
    | ok =>
      obtain ⟨rfl, ⟨⟩⟩ := of_done h
      exact ⟨htries, rfl⟩
    | error e =>
      obtain ⟨rfl, ⟨⟩⟩ := of_done h
      exact ⟨htries, rfl⟩
  | succ left ih =>
    unfold publish at h
    obtain ⟨clock, now, rest, rfl, hclock, h⟩ := of_call h
    obtain ⟨attempt, answer, rest, rfl, hattempt, h⟩ := of_call h
    cases answer with
    | ok =>
      obtain ⟨rfl, ⟨⟩⟩ := of_done h
      exact ⟨.last (congrArg beatOf hclock) (congrArg beatOf hattempt), rfl⟩
    | error e =>
      obtain ⟨warning, _, rest, rfl, hwarning, h⟩ := of_call h
      obtain ⟨pause, _, rest, rfl, hpause, h⟩ := of_call h
      obtain ⟨htries, hskipped⟩ := ih h
      exact ⟨.again (congrArg beatOf hclock) (congrArg beatOf hattempt) (congrArg beatOf hwarning)
        (congrArg beatOf hpause) htries, hskipped⟩

/-- How many versions the store has taken. -/
def takenIn (calls : List TimedCall) : Nat := (takenOf (submissions (calls.map entry))).length

theorem takenIn_append (before after : List TimedCall) :
    takenIn (before ++ after) = takenIn before + takenIn after := by
  simp [takenIn, submissions_append, takenOf_append]

theorem takenIn_cons {x : TimedCall} (h : submission? x.entry = none) (calls : List TimedCall) :
    takenIn (x :: calls) = takenIn calls := by
  simp [takenIn, submissions, h]

theorem takenIn_publish {result : Except Fault Nat}
    (h : (publish version left w).Run (calls.map entry) (w', result)) :
    takenIn calls = result.toBool.toNat := by
  obtain ⟨htried, -⟩ := run_publish h
  unfold takenIn
  generalize submissions (calls.map entry) = subs at htried
  cases htried with
  | took hrefused _ =>
    rw [takenOf_append, Series.takenOf_refused hrefused]
    rfl
  | gaveUp hrefused _ =>
    rw [Series.takenOf_refused hrefused]
    rfl

theorem run_rest {b : Burst} {start : Nat} (h : (w.rest start).Run (calls.map entry) (w', b)) :
    ∃ look wait now, calls = look :: wait ∧ look.beat = .look now ∧
      Wait (start + w.settings.interval.nanos) now wait ∧
      b = ⟨max (start + w.settings.interval.nanos) now, 0⟩ ∧
      w'.skippedSleeps = w.skippedSleeps +
        if start + w.settings.interval.nanos ≤ now then 1 else 0 := by
  unfold rest at h
  obtain ⟨look, (now : Nat), calls, rfl, hlook, h⟩ := of_call h
  replace h : (if now < start + w.settings.interval.nanos then _ else _ :
    Dialogue Work (Writer × Burst)).Run _ (w', b) := h
  split at h
  case isTrue hearly =>
    obtain ⟨pause, _, calls, rfl, hpause, h⟩ := of_call h
    obtain ⟨rfl, ⟨⟩⟩ := of_done h
    refine ⟨look, [pause], now, rfl, congrArg beatOf hlook, .slept hearly (congrArg beatOf hpause), ?_⟩
    rw [Nat.max_eq_left (Nat.le_of_lt hearly), if_neg (Nat.not_le.mpr hearly)]
    exact ⟨rfl, rfl⟩
  case isFalse hlate =>
    rw [Nat.not_lt] at hlate
    obtain ⟨rfl, ⟨⟩⟩ := of_done h
    refine ⟨look, [], now, rfl, congrArg beatOf hlook, .skipped hlate, ?_⟩
    rw [Nat.max_eq_right hlate, if_pos hlate]
    exact ⟨rfl, rfl⟩

theorem Paced.of_pace {perInterval remaining taken : Nat} {b b' : Burst}
    {tries pause later : List TimedCall} {ends : List Nat} (htries : Tries version tries)
    (hpace : (w.pace perInterval remaining b).Run (pause.map entry) (w', b'))
    (hlater : Paced perInterval w.settings.interval.nanos remaining (version + 1) b' later ends taken) :
    ∃ ends', Paced perInterval w.settings.interval.nanos (remaining + 1) version b
        (tries ++ (pause ++ later)) ends' (taken + 1) ∧
      w'.skippedSleeps + overruns w.settings.interval.nanos b'.anchor ends =
        w.skippedSleeps + overruns w.settings.interval.nanos b.anchor ends' := by
  unfold pace at hpace
  split at hpace
  case isTrue hroom =>
    obtain ⟨rfl, hsame⟩ := of_done hpace
    obtain ⟨rfl, rfl⟩ := Prod.mk.inj hsame
    exact ⟨ends, .within htries hroom hlater, rfl⟩
  case isFalse hfull =>
    rw [not_or, Nat.not_lt] at hfull
    obtain ⟨look, wait, now, rfl, hlook, hwait, rfl, hskipped⟩ := run_rest hpace
    refine ⟨now :: ends, .rested htries hfull.1 hfull.2 hlook hwait hlater, ?_⟩
    rw [hskipped, overruns_cons, Nat.add_assoc]

theorem paced_publishAll {measured : Bool} {perInterval remaining : Nat} {b : Burst}
    {result : Except Fault Unit}
    (h : (publishAll measured perInterval remaining version b w).Run (calls.map entry) (w', result)) :
    ∃ ends, Paced perInterval w.settings.interval.nanos remaining version b calls ends (takenIn calls) ∧
      w'.skippedSleeps = w.skippedSleeps + overruns w.settings.interval.nanos b.anchor ends := by
  induction remaining generalizing version b w calls with
  | zero =>
    obtain ⟨rfl, ⟨⟩⟩ := of_done h
    exact ⟨[], .done version b, rfl⟩
  | succ remaining ih =>
    unfold publishAll at h
    obtain ⟨tries, ⟨w₁, published⟩, calls, rfl, hpublish, h⟩ := of_bind h
    obtain ⟨htries, hskipped⟩ := tries_publish hpublish
    rw [takenIn_append, takenIn_publish hpublish]
    cases published with
    | error e =>
      obtain ⟨rfl, ⟨⟩⟩ := of_done h
      rw [List.append_nil]
      exact ⟨[], .gaveUp htries, hskipped⟩
    | ok time =>
      obtain ⟨pause, ⟨w₃, b'⟩, later, rfl, hpace, h⟩ := of_bind h
      set w₂ := if measured then w₁.record version time else w₁ with hw₂
      have hrecorded : w₂.settings = w.settings ∧ w₂.skippedSleeps = w.skippedSleeps := by
        rw [← (run_publish hpublish).2.1.settings, ← hskipped, hw₂]
        cases measured <;> simp [record]
      have hquiet := run_pace hpace
      have htaken : takenIn pause = 0 := congrArg (fun subs => (takenOf subs).length) hquiet.submits
      have hone : (Except.ok time : Except Fault Nat).toBool.toNat + takenIn later =
          takenIn later + 1 := Nat.add_comm ..
      obtain ⟨ends, hlater, hskips⟩ := ih h
      rw [hquiet.settings] at hlater hskips
      obtain ⟨ends', hpaced, htotal⟩ := Paced.of_pace htries hpace hlater
      rw [hrecorded.1] at hpaced hskips htotal
      rw [takenIn_append, htaken, Nat.zero_add, hone]
      exact ⟨ends', hpaced, by rw [hskips, htotal, hrecorded.2]⟩

/-- A writer reads its clocks, goes through its bursts, and may read a clock once more. -/
theorem course_of_run {measured : Bool} {count first : Nat} {result : Except Fault Throughput}
    (hbusy : 0 < w.settings.perInterval)
    (h : (w.writeVersions measured count first).Run (calls.map entry) (w', result)) :
    ∃ watch look written after start ends, calls = watch :: look :: (written ++ after) ∧
      watch.beat = .other ∧ look.beat = .look start ∧ (∀ x ∈ after, x.beat = .other) ∧
      Paced w.settings.perInterval w.settings.interval.nanos count first ⟨start, 0⟩ written ends
        (takenIn calls) ∧
      w'.skippedSleeps = w.skippedSleeps + overruns w.settings.interval.nanos start ends := by
  replace h : (if w.settings.perInterval = 0 then _ else _ :
    Dialogue Work (Writer × Except Fault Throughput)).Run (calls.map entry) (w', result) := h
  rw [if_neg (Nat.ne_of_gt hbusy)] at h
  obtain ⟨watch, _, calls, rfl, hwatch, h⟩ := of_call h
  obtain ⟨look, (start : Nat), calls, rfl, hlook, h⟩ := of_call h
  obtain ⟨written, ⟨w₁, outcome⟩, after, rfl, hwritten, h⟩ := of_bind h
  obtain ⟨ends, hpaced, hskips⟩ := paced_publishAll hwritten
  obtain ⟨rfl, hafter, hquiet⟩ : w' = w₁ ∧ (∀ x ∈ after, x.beat = .other) ∧ takenIn after = 0 := by
    cases outcome with
    | error e =>
      obtain ⟨rfl, ⟨⟩⟩ := of_done h
      exact ⟨rfl, by simp, rfl⟩
    | ok =>
      obtain ⟨close, _, after, rfl, hclose, h⟩ := of_call h
      obtain ⟨rfl, ⟨⟩⟩ := of_done h
      refine ⟨rfl, ?_, takenIn_cons (by rw [hclose]; rfl) []⟩
      intro x hx
      rw [List.mem_singleton.mp hx]
      exact congrArg beatOf hclose
  rw [takenIn_cons (by rw [hwatch]; rfl), takenIn_cons (by rw [hlook]; rfl), takenIn_append, hquiet,
    Nat.add_zero]
  exact ⟨watch, look, written, after, start, ends, rfl, congrArg beatOf hwatch, congrArg beatOf hlook,
    hafter, hpaced, hskips⟩

end Writer

end Lagmeter
