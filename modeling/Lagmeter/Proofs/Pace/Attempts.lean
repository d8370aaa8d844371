import Lagmeter.Proofs.Pace.Bursts

/-!
# Attempts in time

No version is attempted before the anchor of its burst, and a burst ends between its own attempts and
those of the next one. If nothing but the store and sleep takes time, a burst begins right at its anchor.
-/

namespace Lagmeter

open TimedCall

namespace Writer

variable {perInterval interval remaining version now next taken u : Nat} {b : Burst}
  {x look : TimedCall} {tries wait calls : List TimedCall} {ends : List Nat}

/-! ## Parts of a burst -/

theorem Tries.beat_of_mem (h : Tries version tries) (hx : x ∈ tries) :
    x.beat = .attempt version ∨ x.beat = .other ∨ ∃ time, x.beat = .nap time := by
  induction h with
  | last hclock hattempt =>
    simp at hx
    rcases hx with rfl | rfl
    · exact .inr (.inl hclock)
    · exact .inl hattempt
  | again hclock hattempt hwarning hpause _ ih =>
    simp at hx
    rcases hx with rfl | rfl | rfl | rfl | hx
    · exact .inr (.inl hclock)
    · exact .inl hattempt
    · exact .inr (.inl hwarning)
    · exact .inr (.inr ⟨_, hpause⟩)
    · exact ih hx

theorem Tries.version_eq (h : Tries version tries) (hx : x ∈ tries) (hu : x.beat = .attempt u) :
    u = version := by
  rcases h.beat_of_mem hx with hbeat | hbeat | ⟨_, hbeat⟩ <;> simp_all

theorem Tries.place_eq {i : Nat} (h : Tries version tries) (hx : x ∈ tries)
    (hu : x.beat = .attempt (version + i)) : i = 0 := by
  have := h.version_eq hx hu
  omega

theorem Tries.shown_eq_nil (h : Tries version tries) : tries.filterMap (·.beat.shown?) = [] := by
  rw [List.filterMap_eq_nil_iff]
  intro x hx
  rcases h.beat_of_mem hx with hbeat | hbeat | ⟨_, hbeat⟩ <;> simp [hbeat, Beat.shown?]

theorem Tries.alarms_eq_nil (h : Tries version tries) : tries.filterMap (·.beat.alarm?) = [] := by
  rw [List.filterMap_eq_nil_iff]
  intro x hx
  rcases h.beat_of_mem hx with hbeat | hbeat | ⟨_, hbeat⟩ <;> simp [hbeat, Beat.alarm?]

theorem Tries.exists_last (h : Tries version tries) :
    ∃ before last, tries = before ++ [last] ∧ last.beat = .attempt version := by
  induction h with
  | @last clock attempt hclock hattempt => exact ⟨[clock], attempt, rfl, hattempt⟩
  | @again clock attempt warning pause _ _ _ _ _ _ _ ih =>
    obtain ⟨before, last, rfl, hlast⟩ := ih
    exact ⟨clock :: attempt :: warning :: pause :: before, last, rfl, hlast⟩

theorem Wait.beat_of_mem (h : Wait next now wait) (hx : x ∈ wait) : x.beat = .alarm next := by
  cases h with
  | slept _ hpause =>
    simp at hx
    rw [hx, hpause]
  | skipped => simp at hx

theorem Wait.shown_eq_nil (h : Wait next now wait) : wait.filterMap (·.beat.shown?) = [] := by
  rw [List.filterMap_eq_nil_iff]
  intro x hx
  simp [h.beat_of_mem hx, Beat.shown?]

theorem Wait.alarms_eq (h : Wait next now wait) :
    wait.filterMap (·.beat.alarm?) = if now < next then [next] else [] := by
  cases h with
  | slept hearly hpause => simp [hpause, Beat.alarm?, hearly]
  | skipped hlate => simp [hlate]

theorem Wait.le_made (h : Wait next now wait) (hlook : look.beat = .look now)
    (hclocked : Clocked (look :: (wait ++ calls))) (hx : x ∈ calls) : max next now ≤ x.made := by
  obtain ⟨hfits, hrest, hafter⟩ := hclocked.cons
  have hshown := hfits.2
  rw [hlook] at hshown
  have hlooked := hafter x (List.mem_append_right _ hx)
  cases h with
  | skipped hlate => omega
  | @slept pause hearly hpause =>
    obtain ⟨hslept, -, hsince⟩ := hrest.cons
    have hdue := hslept.2
    rw [hpause] at hdue
    have := hsince x hx
    omega

theorem Wait.promptFrom (h : Wait next now wait) (hlook : look.beat = .look now) (hfits : look.Fits)
    {moment : Nat} (hprompt : PromptFrom moment (look :: (wait ++ calls))) :
    PromptFrom (max next now) calls := by
  obtain ⟨-, hlooked, hrest⟩ := hprompt
  have hshown := hfits.2
  unfold TimedCall.Prompt at hlooked
  rw [hlook] at hshown hlooked
  have hnow : look.answered = now := by omega
  rw [hnow] at hrest
  cases h with
  | skipped hlate =>
    rw [Nat.max_eq_right hlate]
    exact hrest
  | @slept pause hearly hpause =>
    obtain ⟨hmade, hslept, hcalls⟩ := hrest
    unfold TimedCall.Prompt at hslept
    rw [hpause, hmade] at hslept
    rw [Nat.max_comm, ← hslept]
    exact hcalls

/-! ## Looks and alarms -/

namespace Paced

theorem shown_eq (h : Paced perInterval interval remaining version b calls ends taken) :
    calls.filterMap (·.beat.shown?) = ends := by
  induction h with
  | done => rfl
  | gaveUp htries => exact htries.shown_eq_nil
  | within htries _ _ ih => rw [List.filterMap_append, htries.shown_eq_nil, ih, List.nil_append]
  | rested htries _ _ hlook hwait _ ih =>
    rw [List.filterMap_append, htries.shown_eq_nil, List.nil_append, List.filterMap_cons,
      List.filterMap_append, hwait.shown_eq_nil, ih, List.nil_append]
    simp [hlook, Beat.shown?]

theorem alarms_eq (h : Paced perInterval interval remaining version b calls ends taken) :
    calls.filterMap (·.beat.alarm?) = alarms interval b.anchor ends := by
  induction h with
  | done => rfl
  | gaveUp htries => exact htries.alarms_eq_nil
  | within htries _ _ ih => rw [List.filterMap_append, htries.alarms_eq_nil, ih, List.nil_append]
  | rested htries _ _ hlook hwait _ ih =>
    rw [List.filterMap_append, htries.alarms_eq_nil, List.nil_append, List.filterMap_cons,
      List.filterMap_append, hwait.alarms_eq, ih, alarms_cons]
    simp [hlook, Beat.alarm?]

theorem exists_look (h : Paced perInterval interval remaining version b calls ends taken)
    (hnow : now ∈ ends) : ∃ x ∈ calls, x.beat = .look now := by
  rw [← h.shown_eq, List.mem_filterMap] at hnow
  obtain ⟨x, hx, hshown⟩ := hnow
  refine ⟨x, hx, ?_⟩
  cases hbeat : x.beat <;> simp_all [Beat.shown?]

theorem le_end (h : Paced perInterval interval remaining version b calls ends taken)
    (hfits : ∀ x ∈ calls, x.Fits) {m : Nat} (hm : ∀ x ∈ calls, m ≤ x.made) {k : Nat}
    (hk : k < ends.length) : m ≤ ends.getD k 0 := by
  have hend : ends.getD k 0 ∈ ends := by simp [hk]
  obtain ⟨x, hx, hlook⟩ := h.exists_look hend
  have hshown := (hfits x hx).2
  rw [hlook] at hshown
  exact Nat.le_trans (hm x hx) hshown.1

theorem eq_nil (h : Paced perInterval interval 0 version b calls ends taken) :
    calls = [] ∧ ends = [] ∧ taken = 0 := by
  cases h
  simp

theorem length_ends (h : Paced perInterval interval remaining version b calls ends taken)
    (hwritten : b.written < perInterval) :
    ends.length = (b.written + min taken (remaining - 1)) / perInterval := by
  induction h with
  | done => simp [Nat.div_eq_of_lt hwritten]
  | gaveUp => simp [Nat.div_eq_of_lt hwritten]
  | @within remaining _ b _ _ _ _ _ hroom h ih =>
    rcases Nat.eq_zero_or_pos remaining with rfl | hpos
    · obtain ⟨-, rfl, rfl⟩ := h.eq_nil
      simp [Nat.div_eq_of_lt hwritten]
    · rw [ih (by simp; omega)]
      congr 1
      simp
      omega
  | @rested remaining _ _ b _ _ _ _ _ taken _ hfull hmore _ _ _ ih =>
    have hcount : b.written + min (taken + 1) (remaining + 1 - 1) =
        min taken (remaining - 1) + perInterval := by omega
    rw [List.length_cons, ih (by simp; omega), hcount, Nat.add_div_right _ (by omega), Nat.zero_add]

theorem exists_last (h : Paced perInterval interval remaining version b calls ends taken)
    (hremaining : remaining ≠ 0) : ∃ before last u, calls = before ++ [last] ∧ last.beat = .attempt u := by
  induction h with
  | done => simp at hremaining
  | gaveUp htries =>
    obtain ⟨before, last, rfl, hlast⟩ := htries.exists_last
    exact ⟨before, last, _, rfl, hlast⟩
  | @within remaining _ _ tries _ _ _ htries _ h ih =>
    rcases Nat.eq_zero_or_pos remaining with rfl | hpos
    · obtain ⟨before, last, rfl, hlast⟩ := htries.exists_last
      exact ⟨before, last, _, by simp [h.eq_nil.1], hlast⟩
    · obtain ⟨before, last, u, rfl, hlast⟩ := ih (by omega)
      exact ⟨tries ++ before, last, u, by simp, hlast⟩
  | @rested _ _ _ _ tries wait _ look _ _ _ _ hmore _ _ _ ih =>
    obtain ⟨before, last, u, rfl, hlast⟩ := ih hmore
    exact ⟨tries ++ look :: (wait ++ before), last, u, by simp, hlast⟩

end Paced

/-! ## Attempts -/

/-- A version of those that remain does not come before the anchor of its burst. -/
def NotEarly (perInterval interval remaining version : Nat) (b : Burst) (ends : List Nat)
    (u moment : Nat) : Prop :=
  ∃ i < remaining, u = version + i ∧ (b.written + i) / perInterval ≤ ends.length ∧
    anchor interval b.anchor ends ((b.written + i) / perInterval) ≤ moment

theorem mem_of_attempt (hlook : look.beat = .look now) (hwait : Wait next now wait)
    (hx : x ∈ tries ++ look :: (wait ++ calls)) (hu : x.beat = .attempt u) : x ∈ tries ∨ x ∈ calls := by
  rcases List.mem_append.mp hx with hx | hx
  · exact .inl hx
  · rcases List.mem_cons.mp hx with rfl | hx
    · simp [hlook] at hu
    · rcases List.mem_append.mp hx with hx | hx
      · simp [hwait.beat_of_mem hx] at hu
      · exact .inr hx

theorem burst_succ {written : Nat} (hwritten : written < perInterval) (hfull : perInterval ≤ written + 1)
    (i : Nat) : (written + (i + 1)) / perInterval = i / perInterval + 1 := by
  have hsum : written + (i + 1) = i + perInterval := by omega
  rw [hsum, Nat.add_div_right _ (by omega)]

theorem notEarly_first {moment : Nat} (hwritten : b.written < perInterval) (hmoment : b.anchor ≤ moment) :
    NotEarly perInterval interval (remaining + 1) version b ends version moment := by
  refine ⟨0, by omega, rfl, ?_⟩
  simpa [Nat.div_eq_of_lt hwritten] using hmoment

theorem NotEarly.within {moment : Nat}
    (h : NotEarly perInterval interval remaining (version + 1) ⟨b.anchor, b.written + 1⟩ ends u moment) :
    NotEarly perInterval interval (remaining + 1) version b ends u moment := by
  obtain ⟨i, hi, rfl, hplace⟩ := h
  refine ⟨i + 1, by omega, by omega, ?_⟩
  have hsum : b.written + (i + 1) = b.written + 1 + i := by omega
  rwa [hsum]

theorem NotEarly.rested {moment : Nat} (hwritten : b.written < perInterval)
    (hfull : perInterval ≤ b.written + 1) (h : NotEarly perInterval interval remaining (version + 1)
      ⟨max (b.anchor + interval) now, 0⟩ ends u moment) :
    NotEarly perInterval interval (remaining + 1) version b (now :: ends) u moment := by
  obtain ⟨i, hi, rfl, hplace, hmoment⟩ := h
  refine ⟨i + 1, by omega, by omega, ?_⟩
  rw [Nat.zero_add] at hplace hmoment
  rw [burst_succ hwritten hfull, anchor_cons, List.length_cons]
  exact ⟨by omega, hmoment⟩

namespace Paced

theorem notEarly (h : Paced perInterval interval remaining version b calls ends taken)
    (hclocked : Clocked calls) (hstart : ∀ x ∈ calls, b.anchor ≤ x.made)
    (hwritten : remaining ≠ 0 → b.written < perInterval) (hx : x ∈ calls) (hu : x.beat = .attempt u) :
    NotEarly perInterval interval remaining version b ends u x.made := by
  induction h with
  | done => simp at hx
  | gaveUp htries =>
    rw [htries.version_eq hx hu]
    exact notEarly_first (hwritten (by simp)) (hstart x hx)
  | within htries hroom _ ih =>
    rcases List.mem_append.mp hx with htried | hlater
    · rw [htries.version_eq htried hu]
      exact notEarly_first (hwritten (by simp)) (hstart x hx)
    · apply NotEarly.within
      apply ih hclocked.append.2.1 _ _ hlater
      · intro y hy
        exact hstart y (List.mem_append_right _ hy)
      · intro hmore
        simp
        omega
  | rested htries hfull hmore hlook hwait _ ih =>
    have hrest := hclocked.append.2.1
    rcases mem_of_attempt hlook hwait hx hu with htried | hlater
    · rw [htries.version_eq htried hu]
      exact notEarly_first (hwritten (by simp)) (hstart x hx)
    · apply NotEarly.rested (hwritten (by simp)) hfull
      apply ih hrest.cons.2.1.append.2.1 _ _ hlater
      · intro y hy
        exact hwait.le_made hlook hrest hy
      · intro _
        simp
        have := hwritten (by simp)
        omega

theorem le_version (h : Paced perInterval interval remaining version b calls ends taken)
    (hx : x ∈ calls) (hu : x.beat = .attempt u) : version ≤ u := by
  induction h with
  | done => simp at hx
  | gaveUp htries => simp [htries.version_eq hx hu]
  | within htries _ _ ih =>
    rcases List.mem_append.mp hx with htried | hlater
    · simp [htries.version_eq htried hu]
    · exact Nat.le_of_succ_le (ih hlater)
  | rested htries _ _ hlook hwait _ ih =>
    rcases mem_of_attempt hlook hwait hx hu with htried | hlater
    · simp [htries.version_eq htried hu]
    · exact Nat.le_of_succ_le (ih hlater)

theorem place_succ {i : Nat} (h : Paced perInterval interval remaining (version + 1) b calls ends taken)
    (hx : x ∈ calls) (hu : x.beat = .attempt (version + i)) :
    ∃ j, i = j + 1 ∧ x.beat = .attempt (version + 1 + j) := by
  have hle := h.le_version hx hu
  refine ⟨i - 1, by omega, ?_⟩
  rw [hu]
  congr 1
  omega

theorem between (h : Paced perInterval interval remaining version b calls ends taken)
    (hclocked : Clocked calls) (hwritten : remaining ≠ 0 → b.written < perInterval) {i k : Nat}
    (hk : k < ends.length) (hx : x ∈ calls) (hu : x.beat = .attempt (version + i)) :
    ((b.written + i) / perInterval ≤ k → x.answered ≤ ends.getD k 0) ∧
      (k < (b.written + i) / perInterval → ends.getD k 0 ≤ x.made) := by
  induction h generalizing i k with
  | done => simp at hx
  | gaveUp => simp at hk
  | @within remaining _ b _ _ _ _ htries hroom h ih =>
    rcases List.mem_append.mp hx with htried | hlater
    · obtain rfl := htries.place_eq htried hu
      rw [Nat.add_zero, Nat.div_eq_of_lt (hwritten (by simp))]
      refine ⟨fun _ => ?_, by omega⟩
      exact h.le_end hclocked.append.2.1.fits (hclocked.append.2.2 x htried) hk
    · obtain ⟨i, rfl, hplace⟩ := h.place_succ hlater hu
      have hsum : b.written + (i + 1) = b.written + 1 + i := by omega
      rw [hsum]
      apply ih hclocked.append.2.1 _ hk hlater hplace
      intro hmore
      simp
      omega
  | @rested remaining _ now b _ _ _ look _ _ htries hfull hmore hlook hwait h ih =>
    obtain ⟨-, hrest, hafter⟩ := hclocked.append
    have hlast : b.written < perInterval := hwritten (by simp)
    rcases mem_of_attempt hlook hwait hx hu with htried | hlater
    · obtain rfl := htries.place_eq htried hu
      rw [Nat.add_zero, Nat.div_eq_of_lt hlast]
      refine ⟨fun _ => ?_, by omega⟩
      cases k with
      | zero =>
        have hshown := (hrest.fits look (by simp)).2
        rw [hlook] at hshown
        exact Nat.le_trans (hafter x htried look (by simp)) hshown.1
      | succ k =>
        apply h.le_end hrest.cons.2.1.append.2.1.fits _ (Nat.lt_of_succ_lt_succ hk)
        intro y hy
        exact hafter x htried y (by simp [hy])
    · obtain ⟨i, rfl, hplace⟩ := h.place_succ hlater hu
      rw [burst_succ hlast hfull]
      cases k with
      | zero =>
        refine ⟨fun hle => absurd hle (Nat.not_succ_le_zero _), fun _ => ?_⟩
        have := hwait.le_made hlook hrest hlater
        simp
        omega
      | succ k =>
        have hroom : remaining ≠ 0 → 0 < perInterval := fun _ => by omega
        simpa using ih hrest.cons.2.1.append.2.1 hroom (Nat.lt_of_succ_lt_succ hk) hlater hplace

end Paced

/-! ## Punctual bursts -/

theorem Tries.find?_eq (h : Tries version tries) (hprompt : PromptFrom now tries) :
    ∃ attempt, tries.find? (·.beat = .attempt version) = some attempt ∧ attempt.made = now := by
  obtain ⟨clock, attempt, rest, rfl, hclock, hattempt⟩ : ∃ clock attempt rest,
      tries = clock :: attempt :: rest ∧ clock.beat = .other ∧ attempt.beat = .attempt version := by
    cases h with
    | last hclock hattempt => exact ⟨_, _, _, rfl, hclock, hattempt⟩
    | again hclock hattempt => exact ⟨_, _, _, rfl, hclock, hattempt⟩
  obtain ⟨hmade, hanswered, hnext, -⟩ := hprompt
  refine ⟨attempt, by simp [hclock, hattempt], ?_⟩
  unfold TimedCall.Prompt at hanswered
  rw [hclock] at hanswered
  rw [hnext, hanswered, hmade]

theorem Tries.find?_eq_none (h : Tries version tries) (hu : u ≠ version) :
    tries.find? (·.beat = .attempt u) = none := by
  simp only [List.find?_eq_none, decide_eq_true_eq]
  intro x hx hbeat
  exact hu (h.version_eq hx hbeat)

theorem Tries.punctual (h : Tries version tries) (hprompt : PromptFrom now tries)
    (hstart : b.written = 0 → now = b.anchor) (hwritten : b.written < perInterval)
    (hplace : (b.written + 0) % perInterval = 0)
    (hx : (tries ++ calls).find? (·.beat = .attempt (version + 0)) = some x) :
    x.made = anchor interval b.anchor ends ((b.written + 0) / perInterval) := by
  rw [Nat.add_zero, Nat.mod_eq_of_lt hwritten] at hplace
  obtain ⟨attempt, hattempt, hmade⟩ := h.find?_eq hprompt
  rw [List.find?_append, Nat.add_zero, hattempt] at hx
  obtain rfl := Option.some.inj hx
  simp [hmade, hstart hplace, hplace]

/-- If everything is prompt, a burst begins at its anchor. -/
theorem Paced.punctual (h : Paced perInterval interval remaining version b calls ends taken)
    (hfits : ∀ x ∈ calls, x.Fits) (hprompt : PromptFrom now calls)
    (hstart : b.written = 0 → now = b.anchor) (hwritten : remaining ≠ 0 → b.written < perInterval) {i : Nat}
    (hplace : (b.written + i) % perInterval = 0)
    (hx : calls.find? (·.beat = .attempt (version + i)) = some x) :
    x.made = anchor interval b.anchor ends ((b.written + i) / perInterval) := by
  induction h generalizing now i with
  | done => simp at hx
  | @gaveUp remaining version b calls htries =>
    cases i with
    | zero =>
      rw [← List.append_nil calls] at hx
      exact htries.punctual hprompt hstart (hwritten (by simp)) hplace hx
    | succ i =>
      rw [htries.find?_eq_none (by omega)] at hx
      cases hx
  | @within remaining version b _ _ _ _ htries hroom h ih =>
    obtain ⟨hfirst, later, hlater⟩ := hprompt.append
    cases i with
    | zero => exact htries.punctual hfirst hstart (hwritten (by simp)) hplace hx
    | succ i =>
      have hsum : b.written + (i + 1) = b.written + 1 + i := by omega
      have hnext : version + (i + 1) = version + 1 + i := by omega
      rw [List.find?_append, htries.find?_eq_none (by omega), Option.none_or, hnext] at hx
      rw [hsum] at hplace ⊢
      apply ih (fun y hy => hfits y (List.mem_append_right _ hy)) hlater _ _ hplace hx
      · simp
      · intro hmore
        simp
        omega
  | @rested remaining version now b tries wait calls look ends _ htries hfull hmore hlook hwait h ih =>
    obtain ⟨hfirst, later, hlater⟩ := hprompt.append
    cases i with
    | zero => exact htries.punctual hfirst hstart (hwritten (by simp)) hplace hx
    | succ i =>
      have hnext : version + (i + 1) = version + 1 + i := by omega
      have hsum : b.written + (i + 1) = i + perInterval := by
        have := hwritten (by simp)
        omega
      have hquiet : (look :: wait).find? (·.beat = .attempt (version + 1 + i)) = none := by
        simp only [List.find?_eq_none, decide_eq_true_eq, List.forall_mem_cons, hlook]
        refine ⟨by simp, fun y hy => ?_⟩
        simp [hwait.beat_of_mem hy]
      rw [List.find?_append, htries.find?_eq_none (by omega), Option.none_or, hnext,
        ← List.cons_append, List.find?_append, hquiet, Option.none_or] at hx
      rw [hsum, Nat.add_mod_right] at hplace
      rw [burst_succ (hwritten (by simp)) hfull, anchor_cons]
      have hfits' : ∀ y ∈ calls, y.Fits := fun y hy => hfits y (by simp [hy])
      have hstarts := hwait.promptFrom hlook (hfits look (by simp)) hlater
      simpa using ih hfits' hstarts (fun _ => rfl) (fun _ => by simp; omega)
        (by simpa using hplace) hx

end Writer

end Lagmeter
