import Lagmeter.Proofs.Node.Retries

/-!
# The summary of a writer

The summary of a writer counts its writes only if the run came to its end. The writes of a run that was
given up are not in it, while the refused ones are.
-/

namespace Lagmeter

open Submission Delivery

namespace Dialogue

variable {I : Interface} {α β : Type} {P : α → Prop} {Q : β → Prop}

/-- Whatever it is answered, a dialogue comes to such a result. -/
def Always (P : α → Prop) : Dialogue I α → Prop
  | .done a => P a
  | .ask _ next => ∀ answer, (next answer).Always P

theorem Always.bind {d : Dialogue I α} {f : α → Dialogue I β} (h : d.Always P)
    (hf : ∀ a, P a → (f a).Always Q) : (d.bind f).Always Q := by
  induction d with
  | done a => exact hf a h
  | ask call next ih => exact fun answer => ih answer (h answer)

theorem Always.of_run {d : Dialogue I α} {trace : List ((call : I.Call) × I.Answer call)} {result : α}
    (h : d.Always P) (hrun : d.Run trace result) : P result := by
  induction hrun with
  | done a => exact h
  | ask call next answer _ ih => exact ih (h answer)

end Dialogue

namespace Writer

variable {w w' : Writer} {version left remaining perInterval count : Nat} {measured : Bool}

/-! ## The rate -/

section

variable {rate : Option Throughput}

/-- A writer with this rate, and a result. -/
def Rated {α : Type} (rate : Option Throughput) (x : Writer × α) : Prop := x.1.throughput = rate

theorem always_publish (hw : w.throughput = rate) : (publish version left w).Always (Rated rate) := by
  induction left generalizing w with
  | zero =>
    unfold publish
    intro now answer
    cases answer <;> exact hw
  | succ left ih =>
    unfold publish
    intro now answer
    cases answer with
    | ok => exact hw
    | error e => exact fun _ _ => ih hw

theorem always_pace (hw : w.throughput = rate) (b : Burst) :
    (w.pace perInterval remaining b).Always (Rated rate) := by
  unfold pace
  split
  · exact hw
  · intro (now : Nat)
    show Dialogue.Always (Rated rate) (if now < b.anchor + w.settings.interval.nanos then _ else _)
    split
    · exact fun _ => hw
    · exact hw

theorem always_publishAll (hw : w.throughput = rate) (b : Burst) :
    (publishAll measured perInterval remaining version b w).Always (Rated rate) := by
  induction remaining generalizing version b w with
  | zero => exact hw
  | succ remaining ih =>
    unfold publishAll
    apply (always_publish hw).bind
    rintro ⟨w₁, published⟩ hpublished
    cases published with
    | error e => exact hpublished
    | ok time =>
      have hrecorded : (if measured then w₁.record version time else w₁).throughput = rate := by
        split <;> exact hpublished
      apply (always_pace hrecorded b).bind
      rintro ⟨w₂, b'⟩ hpaced
      exact ih hpaced b'

theorem always_writeVersions (hw : w.throughput = rate) :
    (w.writeVersions measured count version).Always fun x =>
      Rated rate x ∧ ∀ t, x.2 = .ok t → t.operations = count := by
  show Dialogue.Always _ (if w.settings.perInterval = 0 then _ else _)
  split
  · exact ⟨hw, nofun⟩
  · intro start anchor
    apply (always_publishAll hw ⟨anchor, 0⟩).bind
    rintro ⟨w₁, outcome⟩ hwritten
    cases outcome with
    | error e => exact ⟨hwritten, nofun⟩
    | ok =>
      intro finish
      refine ⟨hwritten, ?_⟩
      rintro _ ⟨⟩
      rfl

theorem always_prepare (hw : w.throughput = rate) : w.prepare.Always (Rated rate) := by
  intro answer
  cases answer with
  | error e => exact hw
  | ok populated =>
    intro _ answer
    cases answer with
    | error e => exact hw
    | ok churned =>
      show Dialogue.Always (Rated rate) (if 0 < churned then _ else _)
      split
      · exact fun _ => hw
      · exact hw

theorem always_warmUp (hw : w.throughput = rate) : w.warmUp.Always (Rated rate) := by
  intro start
  show Dialogue.Always (Rated rate) (if w.settings.warmup = 0 then _ else _)
  split
  · exact fun _ => hw
  · let opened : Writer := { w with warmup := { w.warmup with start := some start } }
    have hopened : opened.throughput = rate := hw
    apply (always_writeVersions hopened).bind
    rintro ⟨w₁, outcome⟩ ⟨hw₁, -⟩
    cases outcome with
    | error e => exact hw₁
    | ok => exact fun _ => hw₁

theorem always_setup (hw : w.throughput = rate) : w.setup.Always (Rated rate) := by
  apply (always_prepare hw).bind
  rintro ⟨w₁, outcome⟩ hw₁
  cases outcome with
  | error e => exact hw₁
  | ok => exact always_warmUp hw₁

/-- A run that is given up leaves no rate. -/
theorem always_run (hw : w.throughput = none) : w.run.Always fun x =>
    x.1.throughput.elim 0 Throughput.operations = if x.2.isOk then w.settings.writes else 0 := by
  intro start
  let opened : Writer := { w with measure := { w.measure with start := some start } }
  have hopened : opened.throughput = none := hw
  apply (always_writeVersions hopened).bind
  rintro ⟨w₁, outcome⟩ ⟨hw₁, hcount⟩ finish
  cases outcome with
  | error e =>
    show Option.elim w₁.throughput 0 Throughput.operations = 0
    rw [show w₁.throughput = none from hw₁]
    rfl
  | ok t => exact fun _ => hcount t rfl

end

/-! ## The page -/

def summaryOf (w : Writer) : Option Journal.Page := w.pages.find? (·.name = "write-summary")

/-- The first line of the summary. -/
def writesLine (writes : Nat) : String := s!"writes {writes}"

/-- What the summary of a writer says after these submissions in its setup and in its run. -/
structure Summed (plan : WriterSettings) (setup run : List Submission) (w : Writer)
    (result : Except Fault Unit) : Prop where
  /-- Each measured version that was published has its time. -/
  published : (List.range plan.writes).countP (fun i => recorded w.times i ≠ 0) = (takenOf run).length
  /-- The writes of a run that was given up are not counted, the refused ones are. -/
  page : ∃ rate, w.summaryOf = some { name := "write-summary", lines := [
    writesLine (if result.isOk then (takenOf run).length else 0),
    s!"skippedsleep {w.skippedSleeps}", rate,
    s!"failedwrites {(setup ++ run).countP (!·.taken)}"] }
  /-- The number of writes is right if and only if the run came to its end, or published nothing. -/
  right_iff : w.summaryOf.bind (·.lines.head?) = some (writesLine (takenOf run).length) ↔
    result.isOk = true ∨ takenOf run = []

variable {plan : WriterSettings} {before after : WorkTrace} {setup run : List Submission}
  {result result' : Except Fault Unit}

theorem summaryOf_eq (w : Writer) : ∃ rate, w.summaryOf = some { name := "write-summary", lines := [
    writesLine (w.throughput.elim 0 Throughput.operations), s!"skippedsleep {w.skippedSleeps}", rate,
    s!"failedwrites {w.failedWrites}"] } :=
  ⟨_, rfl⟩

theorem writesLine_inj {m n : Nat} (h : writesLine m = writesLine n) : m = n := by
  have hdigits : Nat.toDigits 10 m = Nat.toDigits 10 n := by
    simpa [writesLine, ← String.toList_inj, toString] using h
  have hnumbers := congrArg (fun digits => Nat.ofDigitChars 10 digits 0) hdigits
  simpa [Nat.ofDigitChars_toDigits] using hnumbers

theorem length_taken (h : Stretch plan count version run result.isOk) (hok : result.isOk = true) :
    (takenOf run).length = count := by
  rcases h with ⟨-, -, hfailed⟩ | ⟨-, hseries⟩
  · simp [hok] at hfailed
  · obtain ⟨k, -, hversions, hwhole⟩ := hseries.versions
    rw [← hwhole.mp hok, ← List.length_map (f := Sample.version), hversions, List.length_range']

theorem countP_published (h : Part count version run) :
    (List.range count).countP (fun i => version + i ∈ (takenOf run).map Sample.version) =
      (takenOf run).length := by
  obtain ⟨k, hk, hversions⟩ := h.versions
  rw [← List.length_map (f := Sample.version), hversions, List.length_range']
  obtain ⟨rest, rfl⟩ := Nat.exists_eq_add_of_le hk
  rw [List.range_add, List.countP_append, List.countP_eq_length.mpr, List.countP_eq_zero.mpr]
  · simp
  · simp
  · simp

theorem recorded_of_runs {map : Nat} {name : String} {keys : List Int}
    (hsetup : (Writer.new map name keys plan).setup.Run before (w, result))
    (hrun : w.run.Run after (w', result')) (hclock : Ticking (before ++ after)) {i : Nat}
    (hi : i < plan.writes) :
    recorded w'.times i ≠ 0 ↔ plan.warmup + 1 + i ∈ (takenOf (submissions after)).map Sample.version := by
  obtain ⟨(hwarm : Part plan.warmup 1 (submissions before)), hworked, htracks⟩ := run_setup hsetup
  obtain ⟨hstretch, hworked', htracks'⟩ := run_run hrun
  rw [show w.settings = plan from hworked.settings] at hstretch
  have hpositive := (hworked.trans hworked').stamped.positive hclock
  have hrecord := htracks' plan _ (htracks plan [] (tracks_new map name keys plan))
  rw [List.nil_append, ← takenOf_append] at hrecord
  rw [submissions_append] at hpositive
  rw [← measured_of_part hwarm]
  exact hrecord.recorded_ne_zero_iff (rising_of_parts hwarm hstretch.part) hi hpositive

/-- The summary says that a run that was given up wrote nothing, and is right in all else. -/
theorem summed_of_runs {map : Nat} {name : String} {keys : List Int}
    (hsetup : (Writer.new map name keys plan).setup.Run before (w, result))
    (hrun : w.run.Run after (w', result')) (hclock : Ticking (before ++ after)) :
    Summed plan (submissions before) (submissions after) w' result' := by
  obtain ⟨-, hworked, -⟩ := run_setup hsetup
  obtain ⟨hstretch, hworked', -⟩ := run_run hrun
  have hsettings : w.settings = plan := hworked.settings
  rw [hsettings] at hstretch
  have hrate : w.throughput = none := (always_setup rfl).of_run hsetup
  have hwrites : w'.throughput.elim 0 Throughput.operations =
      if result'.isOk then (takenOf (submissions after)).length else 0 := by
    rw [(always_run hrate).of_run hrun, hsettings]
    split
    case isTrue hok => rw [length_taken hstretch hok]
    case isFalse => rfl
  have hfailures : w'.failedWrites = (submissions before ++ submissions after).countP (!·.taken) := by
    rw [← submissions_append, (hworked.trans hworked').failures]
    exact Nat.zero_add _
  obtain ⟨rate, hpage⟩ := w'.summaryOf_eq
  rw [hwrites, hfailures] at hpage
  constructor
  case published =>
    rw [← countP_published hstretch.part]
    apply List.countP_congr
    intro i hi
    simpa using recorded_of_runs hsetup hrun hclock (List.mem_range.mp hi)
  case page => exact ⟨rate, hpage⟩
  case right_iff =>
    rw [hpage, Option.bind_some, List.head?_cons, Option.some.injEq]
    constructor
    · intro heq
      have hcount := writesLine_inj heq
      split at hcount
      case isTrue hok => exact .inl hok
      case isFalse => exact .inr (List.length_eq_zero_iff.mp hcount.symm)
    · rintro (hok | hnone)
      · rw [if_pos hok]
      · simp [hnone]

def twoWrites : WriterSettings := ⟨2, 0, .ofNat 20, .ofMillis 100⟩

/-- The second of two versions is refused until the writer gives it up. -/
def refusedSetup : WorkTrace × Writer × Except Fault Unit :=
  (Writer.new 0 "probe" [] twoWrites).setup.play (refusing 2)

def refusedRun : WorkTrace × Writer × Except Fault Unit := refusedSetup.2.1.run.play (refusing 2)

theorem run_refusedSetup :
    (Writer.new 0 "probe" [] twoWrites).setup.Run refusedSetup.1 refusedSetup.2 := by
  unfold refusedSetup
  exact Dialogue.run_play _ _

theorem run_refusedRun : refusedSetup.2.1.run.Run refusedRun.1 refusedRun.2 := by
  unfold refusedRun
  exact Dialogue.run_play _ _

theorem ticking_refused : Ticking (refusedSetup.1 ++ refusedRun.1) :=
  have hnow : refusing 2 .wallClock = (7 : Nat) := rfl
  (ticking_play hnow (by decide) _).append (ticking_play hnow (by decide) _)

theorem summed_of_refused :
    (Writer.new 0 "probe" [] twoWrites).setup.Run refusedSetup.1 refusedSetup.2 ∧
    refusedSetup.2.1.run.Run refusedRun.1 refusedRun.2 ∧ Ticking (refusedSetup.1 ++ refusedRun.1) ∧
    Summed twoWrites (submissions refusedSetup.1) (submissions refusedRun.1) refusedRun.2.1
      refusedRun.2.2 ∧
    refusedRun.2.2.isOk = false ∧ (takenOf (submissions refusedRun.1)).length = 1 :=
  ⟨run_refusedSetup, run_refusedRun, ticking_refused,
    summed_of_runs run_refusedSetup run_refusedRun ticking_refused, by decide +kernel, by decide +kernel⟩

/-- The summary does not always count the versions that were published. -/
theorem not_always_counted : ¬ ∀ (map : Nat) (name : String) (keys : List Int) (plan : WriterSettings)
    (before after : WorkTrace) (w w' : Writer) (result result' : Except Fault Unit),
    (Writer.new map name keys plan).setup.Run before (w, result) → w.run.Run after (w', result') →
    Ticking (before ++ after) → w'.summaryOf.bind (·.lines.head?) =
      some (writesLine ((List.range plan.writes).countP fun i => recorded w'.times i ≠ 0)) := by
  intro hall
  have hcounted := hall 0 "probe" [] twoWrites refusedSetup.1 refusedRun.1 refusedSetup.2.1
    refusedRun.2.1 refusedSetup.2.2 refusedRun.2.2 run_refusedSetup run_refusedRun ticking_refused
  have hpublished : (List.range 2).countP (fun i => recorded refusedRun.2.1.times i ≠ 0) = 1 := by
    decide +kernel
  have hsummary : refusedRun.2.1.summaryOf.bind (·.lines.head?) = some (writesLine 0) := by
    decide +kernel
  rw [hsummary, Option.some.injEq] at hcounted
  have hzero := writesLine_inj hcounted
  rw [show twoWrites.writes = 2 from rfl, hpublished] at hzero
  cases hzero

end Writer

end Lagmeter
