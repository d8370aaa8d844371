import Lagmeter.Proofs.Pace.Attempts
import Mathlib.Data.Finset.Card
import Mathlib.Data.Finset.Image

/-!
# The pace of a writer

However long its writes and its sleeps take, a writer never goes faster than its plan. A burst that lasts
too long puts off all that come after it, and is not made up for. As long as none does, the writer does
not drift.
-/

namespace Lagmeter

open TimedCall

namespace Writer

/-- The pace of a writer with `count` versions from `first` on, whose bursts ended at the moments `ends`. -/
structure Pacing (perInterval interval first count : Nat) (calls : List TimedCall) (start : Nat)
    (ends : List Nat) (skipped : Nat) : Prop where
  /-- The writer looks at the clock at the start and at the end of a burst. -/
  shown : calls.filterMap (·.beat.shown?) = start :: ends
  /-- A burst that is full ends, unless it has the last version. -/
  length : ends.length = min (takenIn calls) (count - 1) / perInterval
  /-- No attempt comes before the anchor of its burst. -/
  starts : ∀ x ∈ calls, ∀ u, x.beat = .attempt u → ∃ i < count, u = first + i ∧
    i / perInterval ≤ ends.length ∧ anchor interval start ends (i / perInterval) ≤ x.made
  between : ∀ k < ends.length, ∀ x ∈ calls, ∀ i, x.beat = .attempt (first + i) →
    (i / perInterval ≤ k → x.answered ≤ ends.getD k 0) ∧
      (k < i / perInterval → ends.getD k 0 ≤ x.made)
  spaced : ∀ k, anchor interval start ends k + interval ≤ anchor interval start ends (k + 1)
  /-- A burst that is late moves the anchor of the next one. -/
  late : ∀ k, anchor interval start ends k + interval ≤ ends.getD k 0 →
    anchor interval start ends (k + 1) = ends.getD k 0
  rate : ∀ t, ((calls.filter (·.made ≤ t)).filterMap (·.beat.version?)).toFinset.card ≤
    perInterval * (1 + (t - start) / interval)
  alarms_eq : calls.filterMap (·.beat.alarm?) = alarms interval start ends
  /-- A sleep is skipped after each burst that is late, and no other. -/
  skipped_eq : skipped = overruns interval start ends
  /-- Nothing is waited for after the last attempt. -/
  last : 0 < count → ∃ before last after u, calls = before ++ last :: after ∧
    last.beat = .attempt u ∧ ∀ x ∈ after, x.beat = .other
  punctual : ∀ now, PromptFrom now calls → ∀ k x,
    calls.find? (·.beat = .attempt (first + k * perInterval)) = some x →
      x.made = anchor interval start ends k
  steady : (∀ k < ends.length, ends.getD k 0 < anchor interval start ends k + interval) →
    skipped = 0 ∧ ∀ k ≤ ends.length, anchor interval start ends k = start + k * interval

variable {perInterval interval first count start t : Nat} {calls : List TimedCall} {ends : List Nat}

theorem overruns_of_early
    (h : ∀ k < ends.length, ends.getD k 0 < anchor interval start ends k + interval) :
    overruns interval start ends = 0 := by
  unfold overruns
  rw [List.countP_eq_zero]
  intro k hk
  simpa using h k (List.mem_range.mp hk)

/-- The bursts that began by some moment have no more versions than there were intervals. -/
theorem card_versions_le (hbusy : 0 < perInterval) (hinterval : 0 < interval)
    (hstarts : ∀ x ∈ calls, ∀ u, x.beat = .attempt u →
      ∃ i, u = first + i ∧ anchor interval start ends (i / perInterval) ≤ x.made) :
    ((calls.filter (·.made ≤ t)).filterMap (·.beat.version?)).toFinset.card ≤
      perInterval * (1 + (t - start) / interval) := by
  have hsubset : ((calls.filter (·.made ≤ t)).filterMap (·.beat.version?)).toFinset ⊆
      (Finset.range (perInterval * (1 + (t - start) / interval))).image (first + ·) := by
    intro u hu
    simp only [List.mem_toFinset, List.mem_filterMap, List.mem_filter, decide_eq_true_eq] at hu
    obtain ⟨x, ⟨hx, hmade⟩, hversion⟩ := hu
    obtain ⟨i, rfl, hanchor⟩ := hstarts x hx u (Beat.version?_eq_some.mp hversion)
    have hburst : i / perInterval ≤ (t - start) / interval := by
      have := le_anchor interval start ends (i / perInterval)
      rw [Nat.le_div_iff_mul_le hinterval]
      omega
    refine Finset.mem_image.mpr ⟨i, ?_, rfl⟩
    rw [Finset.mem_range, Nat.mul_comm, ← Nat.div_lt_iff_lt_mul hbusy]
    omega
  calc _ ≤ _ := Finset.card_le_card hsubset
    _ ≤ (Finset.range (perInterval * (1 + (t - start) / interval))).card := Finset.card_image_le
    _ = _ := Finset.card_range _

section

variable {watch look x : TimedCall} {written after : List TimedCall} {taken : Nat}
  (hwatch : watch.beat = .other) (hlook : look.beat = .look start) (hafter : ∀ x ∈ after, x.beat = .other)
  (hpaced : Paced perInterval interval count first ⟨start, 0⟩ written ends taken)
  (hclocked : Clocked (watch :: look :: (written ++ after)))

include hwatch hlook hafter

theorem mem_written {u : Nat} (hx : x ∈ watch :: look :: (written ++ after)) (hu : x.beat = .attempt u) :
    x ∈ written := by
  simp only [List.mem_cons, List.mem_append] at hx
  rcases hx with rfl | rfl | hx | hx
  · simp [hwatch] at hu
  · simp [hlook] at hu
  · exact hx
  · simp [hafter x hx] at hu

theorem filterMap_beats (f : Beat → Option Nat) (hother : f .other = none) :
    (watch :: look :: (written ++ after)).filterMap (fun x => f x.beat) =
      (f (.look start)).toList ++ written.filterMap fun x => f x.beat := by
  have hquiet : after.filterMap (fun x => f x.beat) = [] := by
    rw [List.filterMap_eq_nil_iff]
    intro x hx
    rw [hafter x hx, hother]
  simp only [List.filterMap_cons, hwatch, hother, hlook, List.filterMap_append, hquiet, List.append_nil]
  cases f (.look start) <;> rfl

include hpaced hclocked

theorem notEarly_of_paced (hbusy : 0 < perInterval) {u : Nat}
    (hx : x ∈ watch :: look :: (written ++ after)) (hu : x.beat = .attempt u) :
    ∃ i < count, u = first + i ∧ i / perInterval ≤ ends.length ∧
      anchor interval start ends (i / perInterval) ≤ x.made := by
  obtain ⟨hlooked, hwritten, hsince⟩ := hclocked.cons.2.1.cons
  have hshown := hlooked.2
  rw [hlook] at hshown
  have hstart : ∀ y ∈ written, start ≤ y.made := fun y hy =>
    Nat.le_trans hshown.2 (hsince y (List.mem_append_left _ hy))
  have hx' := mem_written hwatch hlook hafter hx hu
  simpa [NotEarly] using hpaced.notEarly hwritten.append.1 hstart (fun _ => hbusy) hx' hu

theorem punctual_of_paced (hbusy : 0 < perInterval) {now k : Nat}
    (hprompt : PromptFrom now (watch :: look :: (written ++ after)))
    (hx : (watch :: look :: (written ++ after)).find? (·.beat = .attempt (first + k * perInterval)) =
      some x) : x.made = anchor interval start ends k := by
  obtain ⟨-, hwritten, -⟩ := hclocked.cons.2.1.cons
  -- The clock shows the moment at which the first burst begins.
  have hnow : PromptFrom start written := by
    have hlooked := hclocked.cons.2.1.cons.1.2
    obtain ⟨-, -, hmade, hanswered, hrest⟩ := hprompt
    unfold TimedCall.Prompt at hanswered
    rw [hlook] at hlooked hanswered
    have hstart : look.answered = start := by omega
    rw [hstart] at hrest
    exact hrest.append.1
  have hnone : after.find? (·.beat = .attempt (first + k * perInterval)) = none := by
    simp only [List.find?_eq_none, decide_eq_true_eq]
    intro y hy
    simp [hafter y hy]
  have hfound : written.find? (·.beat = .attempt (first + k * perInterval)) = some x := by
    simpa [hwatch, hlook, List.find?_append, hnone] using hx
  have hmade := hpaced.punctual hwritten.append.1.fits hnow (fun _ => rfl) (fun _ => hbusy)
    (i := k * perInterval) (by simp) hfound
  simpa [Nat.mul_div_cancel k hbusy] using hmade

end

/-- However long its attempts and its sleeps take, a writer keeps its pace. -/
theorem pacing_of_run {w w' : Writer} {measured : Bool} {result : Except Fault Throughput}
    (hbusy : 0 < w.settings.perInterval) (hinterval : 0 < w.settings.interval.nanos)
    (hclocked : Clocked calls)
    (h : (w.writeVersions measured count first).Run (calls.map entry) (w', result)) :
    ∃ start ends skipped, w'.skippedSleeps = w.skippedSleeps + skipped ∧
      Pacing w.settings.perInterval w.settings.interval.nanos first count calls start ends skipped := by
  obtain ⟨watch, look, written, after, start, ends, rfl, hwatch, hlook, hafter, hpaced, hskips⟩ :=
    course_of_run hbusy h
  have hwritten : Clocked written := hclocked.cons.2.1.cons.2.1.append.1
  refine ⟨start, ends, _, hskips, ?_⟩
  constructor
  case shown =>
    rw [filterMap_beats hwatch hlook hafter Beat.shown? rfl, hpaced.shown_eq]
    rfl
  case length => simpa using hpaced.length_ends hbusy
  case starts =>
    intro x hx u hu
    exact notEarly_of_paced hwatch hlook hafter hpaced hclocked hbusy hx hu
  case between =>
    intro k hk x hx i hi
    have hx' := mem_written hwatch hlook hafter hx hi
    simpa using hpaced.between hwritten (fun _ => hbusy) hk hx' hi
  case spaced => exact fun k => Nat.le_max_left ..
  case late => exact fun k hlate => Nat.max_eq_right hlate
  case rate =>
    intro t
    apply card_versions_le hbusy hinterval
    intro x hx u hu
    obtain ⟨i, -, hi, -, hanchor⟩ :=
      notEarly_of_paced hwatch hlook hafter hpaced hclocked hbusy hx hu
    exact ⟨i, hi, hanchor⟩
  case alarms_eq =>
    rw [filterMap_beats hwatch hlook hafter Beat.alarm? rfl, hpaced.alarms_eq]
    rfl
  case skipped_eq => rfl
  case last =>
    intro hcount
    obtain ⟨before, last, u, rfl, hlast⟩ := hpaced.exists_last (Nat.ne_of_gt hcount)
    exact ⟨watch :: look :: before, last, after, u, by simp, hlast, hafter⟩
  case punctual =>
    intro now hprompt k x hx
    exact punctual_of_paced hwatch hlook hafter hpaced hclocked hbusy hprompt hx
  case steady =>
    intro hearly
    exact ⟨overruns_of_early hearly, fun k hk => anchor_of_early hearly hk⟩

theorem pacing_of_slowWrite : ∃ (w w' : Writer) (calls : List TimedCall)
    (result : Except Fault Throughput) (start : Nat) (ends : List Nat) (skipped : Nat),
    w.settings.perInterval = 2 ∧ w.settings.interval.nanos = 100000000 ∧ Clocked calls ∧
    PromptFrom 3 calls ∧ (w.writeVersions true 5 1).Run (calls.map entry) (w', result) ∧
    Pacing 2 100000000 1 5 calls start ends skipped ∧ w'.skippedSleeps = 1 := by
  let w : Writer := .new 0 "probe" [] ⟨5, 0, .ofNat 20, .ofMillis 100⟩
  let lag (v : Nat) : Nat := if v = 2 then 250000000 else 0
  have hbusy : w.settings.perInterval = 2 := by decide +kernel
  have hinterval : w.settings.interval.nanos = 100000000 := by decide
  have hclocked := (clocked_play lag (w.writeVersions true 5 1) 3).1
  have hrun := run_play lag (w.writeVersions true 5 1) 3
  obtain ⟨start, ends, skipped, -, hpacing⟩ :=
    pacing_of_run (by decide +kernel) (by decide) hclocked hrun
  rw [hbusy, hinterval] at hpacing
  exact ⟨w, _, _, _, start, ends, skipped, hbusy, hinterval, hclocked,
    promptFrom_play lag (w.writeVersions true 5 1) 3, hrun, hpacing, by decide +kernel⟩

end Writer

end Lagmeter
