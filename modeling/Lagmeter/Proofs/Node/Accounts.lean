import Lagmeter.Proofs.Feed.Rounds
import Lagmeter.Proofs.Node.Sightings

/-!
# The accounts of a reader

Whatever a reader is shown during its run, its accounts are those of the sightings that it made. Each
measured version above the first one was measured, discarded or missed, and is counted once. All of
this fits into words, so no step of it wraps around.
-/

namespace Lagmeter

open Delivery

/-! ## Arithmetic of words -/

def Word.add? (a b : Nat) : Option Nat := if a + b < 2 ^ 64 then some (a + b) else none

def Word.sub? (a b : Nat) : Option Nat := if b ≤ a then some (a - b) else none

theorem Word.add?_of_lt {a b : Nat} (h : a + b < 2 ^ 64) : Word.add? a b = some (a + b) := if_pos h

theorem Word.sub?_of_le {a b : Nat} (h : b ≤ a) : Word.sub? a b = some (a - b) := if_pos h

namespace Sighting

variable {bound version : Nat} {seen : List Sighting} {s : Sighting}

/-- When the version was sighted, or zero if it was not. -/
def timeOf (seen : List Sighting) (version : Nat) : Nat :=
  (seen.find? fun s => s.version = version).elim 0 Sighting.seen

theorem highest_max (bound limit : Nat) (seen : List Sighting) :
    highest (max bound limit) seen = max (highest bound seen) limit := by
  induction seen generalizing bound with
  | nil => rfl
  | cons s rest ih =>
    show highest (max (max bound limit) s.version) rest = _
    rw [Nat.max_right_comm]
    exact ih _

theorem newest_concat_of_le (h : s.version ≤ highest bound seen) :
    newest bound (seen ++ [s]) = newest bound seen := by
  rw [newest_concat, if_neg (Nat.not_lt.mpr h), List.append_nil]

theorem newest_concat_of_lt (h : highest bound seen < s.version) :
    newest bound (seen ++ [s]) = newest bound seen ++ [s] := by
  rw [newest_concat, if_pos h]

theorem timeOf_concat (h : ∀ t ∈ seen, t.version < s.version) :
    timeOf (seen ++ [s]) version = if version = s.version then s.seen else timeOf seen version := by
  rw [timeOf, List.find?_append]
  split
  case isTrue heq =>
    subst heq
    have hnone : seen.find? (fun t => t.version = s.version) = none := by
      simp only [List.find?_eq_none, decide_eq_true_eq]
      exact fun t ht => Nat.ne_of_lt (h t ht)
    rw [hnone, Option.none_or, List.find?_cons_of_pos (by simp)]
    rfl
  case isFalse hne =>
    rw [List.find?_cons_of_neg (by simpa using Ne.symm hne), List.find?_nil, Option.or_none]
    rfl

end Sighting

namespace Reader

open Sighting

/-! ## The accounts -/

/-- The accounts of a reader that sighted these samples after a version. -/
structure Accounted (plan : ReaderSettings) (first : Nat) (seen : List Sighting) (r : Reader) :
    Prop where
  settings : r.settings = plan
  lastVersion : r.lastVersion = highest first seen
  balance : max first plan.warmup + (r.latencies.length + r.invalid + r.missed) =
    max r.lastVersion plan.warmup
  room : r.latencies.length ≤ plan.writes
  latencies : r.latencies =
    (accepted (max first plan.warmup) seen).map fun s => s.seen - s.sample.writtenAt
  invalid : r.invalid =
    (newest (max first plan.warmup) seen).countP fun s => s.seen < s.sample.writtenAt
  length : r.times.length = plan.writes
  /-- No version is accepted twice, so a time belongs to one sighting. -/
  rising : (accepted (max first plan.warmup) seen).Pairwise fun s t => s.version < t.version
  slots : ∀ i < plan.writes,
    recorded r.times i = timeOf (accepted (max first plan.warmup) seen) (plan.warmup + 1 + i)

variable {plan : ReaderSettings} {first : Nat} {seen : List Sighting} {s : Sighting}
  {r r' : Reader} {trace : WorkTrace} {x : Round Reader}

theorem Accounted.of_bare (h : Accounted plan first seen r) (hbare : r'.bare = r.bare) :
    Accounted plan first seen r' := by
  have hsettings : r'.settings = r.settings := (congrArg Reader.settings hbare :)
  have hlast : r'.lastVersion = r.lastVersion := (congrArg Reader.lastVersion hbare :)
  have hlatencies : r'.latencies = r.latencies := (congrArg Reader.latencies hbare :)
  have htimes : r'.times = r.times := (congrArg Reader.times hbare :)
  have hmissed : r'.missed = r.missed := (congrArg Reader.missed hbare :)
  have hinvalid : r'.invalid = r.invalid := (congrArg Reader.invalid hbare :)
  obtain ⟨settings, lastVersion, balance, room, latencies, invalid, length, rising, slots⟩ := h
  rw [← hsettings] at settings
  rw [← hlast] at lastVersion balance
  rw [← hlatencies] at balance room latencies
  rw [← hmissed, ← hinvalid] at balance
  rw [← hinvalid] at invalid
  rw [← htimes] at length slots
  exact ⟨settings, lastVersion, balance, room, latencies, invalid, length, rising, slots⟩

theorem Accounted.highest (h : Accounted plan first seen r) :
    Sighting.highest (max first plan.warmup) seen = max r.lastVersion plan.warmup := by
  rw [highest_max, h.lastVersion]

theorem Accounted.highest_of_new (h : Accounted plan first seen r)
    (hnew : max r.lastVersion plan.warmup < s.version) :
    Sighting.highest first (seen ++ [s]) = s.version := by
  have hlast := h.lastVersion
  rw [highest_concat]
  omega

theorem Accounted.ignore (h : Accounted plan first seen r)
    (hknown : s.version ≤ max r.lastVersion plan.warmup) :
    Accounted plan first (seen ++ [s]) { r with lastVersion := max r.lastVersion s.version } := by
  have hnewest : newest (max first plan.warmup) (seen ++ [s]) = newest (max first plan.warmup) seen :=
    newest_concat_of_le (h.highest ▸ hknown)
  have haccepted : accepted (max first plan.warmup) (seen ++ [s]) =
      accepted (max first plan.warmup) seen := by
    rw [accepted, hnewest, accepted]
  constructor
  case settings => exact h.settings
  case lastVersion => exact (congrArg (max · s.version) h.lastVersion).trans (highest_concat ..).symm
  case balance =>
    have hbalance := h.balance
    show _ + (r.latencies.length + r.invalid + r.missed) = max (max r.lastVersion s.version) plan.warmup
    omega
  case room => exact h.room
  case latencies => exact haccepted ▸ h.latencies
  case invalid => exact hnewest ▸ h.invalid
  case length => exact h.length
  case rising => exact (pairwise_newest ..).filter _
  case slots => exact haccepted ▸ h.slots

theorem Accounted.discard (h : Accounted plan first seen r)
    (hnew : max r.lastVersion plan.warmup < s.version) (hearly : s.seen < s.sample.writtenAt) :
    Accounted plan first (seen ++ [s])
      { r.advance s.version with invalid := r.invalid + 1 } := by
  have hnewest := newest_concat_of_lt (h.highest ▸ hnew)
  have haccepted : accepted (max first plan.warmup) (seen ++ [s]) =
      accepted (max first plan.warmup) seen := by
    rw [accepted, hnewest, List.filter_append, List.filter_singleton,
      decide_eq_false (Nat.not_le.mpr hearly)]
    exact List.append_nil _
  constructor
  case settings => exact h.settings
  case lastVersion => exact (h.highest_of_new hnew).symm
  case balance =>
    have hbalance := h.balance
    show _ + (r.latencies.length + (r.invalid + 1) +
      (r.missed + (s.version - (max r.lastVersion r.settings.warmup + 1)))) = max s.version plan.warmup
    rw [h.settings]
    omega
  case room => exact h.room
  case latencies => exact haccepted ▸ h.latencies
  case invalid =>
    rw [hnewest, List.countP_append, ← h.invalid, List.countP_singleton, decide_eq_true hearly]
    rfl
  case length => exact h.length
  case rising => exact (pairwise_newest ..).filter _
  case slots => exact haccepted ▸ h.slots

theorem recorded_set_of_lt {times : List Nat} {i k time : Nat} (hi : i < times.length) :
    recorded (times.set k time) i = if i = k then time else recorded times i := by
  by_cases hk : k < times.length
  · exact recorded_set hk time i
  · rw [List.set_eq_of_length_le (Nat.le_of_not_lt hk), if_neg (by omega)]

theorem Accounted.take (h : Accounted plan first seen r)
    (hnew : max r.lastVersion plan.warmup < s.version) (htimely : s.sample.writtenAt ≤ s.seen)
    (hroom : r.latencies.length < plan.writes) :
    Accounted plan first (seen ++ [s]) ((r.advance s.version).take s.sample s.seen) := by
  have hnewest := newest_concat_of_lt (h.highest ▸ hnew)
  have haccepted : accepted (max first plan.warmup) (seen ++ [s]) =
      accepted (max first plan.warmup) seen ++ [s] := by
    rw [accepted, hnewest, List.filter_append, List.filter_singleton, decide_eq_true htimely]
    rfl
  have hbefore : ∀ t ∈ accepted (max first plan.warmup) seen, t.version < s.version := by
    intro t ht
    have hseen := (version_of_mem_newest (List.mem_of_mem_filter ht)).2
    rw [h.highest] at hseen
    exact Nat.lt_of_le_of_lt hseen hnew
  constructor
  case settings => exact h.settings
  case lastVersion => exact (h.highest_of_new hnew).symm
  case balance =>
    have hbalance := h.balance
    show _ + ((r.latencies ++ [s.seen - s.sample.writtenAt]).length + r.invalid +
      (r.missed + (s.version - (max r.lastVersion r.settings.warmup + 1)))) = max s.version plan.warmup
    rw [h.settings, List.length_append, List.length_singleton]
    omega
  case room =>
    show (r.latencies ++ [s.seen - s.sample.writtenAt]).length ≤ plan.writes
    rw [List.length_append]
    exact hroom
  case latencies =>
    rw [haccepted, List.map_append, ← h.latencies]
    rfl
  case invalid =>
    rw [hnewest, List.countP_append, ← h.invalid, List.countP_singleton,
      decide_eq_false (Nat.not_lt.mpr htimely)]
    rfl
  case length => exact (List.length_set ..).trans h.length
  case rising => exact (pairwise_newest ..).filter _
  case slots =>
    intro i hi
    show recorded (r.times.set (s.version - r.settings.warmup - 1) s.seen) i = _
    rw [haccepted, timeOf_concat hbefore, recorded_set_of_lt (h.length ▸ hi), h.slots i hi, h.settings]
    have hslot : i = s.version - plan.warmup - 1 ↔ plan.warmup + 1 + i = s.version := by omega
    simp only [hslot]

theorem account_known {p : Sample} (hknown : p.version ≤ max r.lastVersion r.settings.warmup)
    (seen : Nat) : (r.account p seen).1.bare =
      { r.bare with lastVersion := max r.lastVersion p.version } := by
  unfold Reader.account
  split
  case isTrue hold =>
    rw [Nat.max_eq_left hold]
    rfl
  case isFalse hnew =>
    rw [if_pos (by omega), Nat.max_eq_right (Nat.le_of_not_le hnew)]
    rfl

theorem account_new {p : Sample} (hnew : max r.lastVersion r.settings.warmup < p.version) (seen : Nat) :
    (r.account p seen).1 =
      if seen < p.writtenAt then { r.advance p.version with invalid := r.invalid + 1 }
      else (r.advance p.version).take p seen := by
  unfold Reader.account
  rw [if_neg (by omega), if_neg (by omega)]
  split <;> rfl

theorem Accounted.account (h : Accounted plan first seen r)
    (hroom : r.latencies.length < plan.writes) (s : Sighting) :
    Accounted plan first (seen ++ [s]) (r.account s.sample s.seen).1 := by
  have hsettings := h.settings
  by_cases hknown : s.version ≤ max r.lastVersion plan.warmup
  · exact (h.ignore hknown).of_bare (account_known (hsettings ▸ hknown) s.seen)
  · have hnew := Nat.lt_of_not_le hknown
    rw [account_new (hsettings ▸ hnew) s.seen]
    split
    case isTrue hearly => exact h.discard hnew hearly
    case isFalse htimely => exact h.take hnew (Nat.le_of_not_lt htimely) hroom

/-! ## No wrapping -/

/-- The missed versions after a new one, in the arithmetic of words. -/
def missed? (r : Reader) (version : Nat) : Option Nat := do
  let expected ← Word.add? (max r.lastVersion r.settings.warmup) 1
  if expected < version then Word.add? r.missed (← Word.sub? version expected) else return r.missed

/-- The accounts of an observation in the arithmetic of words, as far as it goes. -/
def account? (r : Reader) (p : Sample) (seen : Nat) : Option (Reader × List Event × Bool) := do
  let last ← Word.add? r.settings.warmup r.settings.writes
  if p.version ≤ r.lastVersion then
    return ({ r with repeats := r.repeats + 1 },
      [⟨.debug, s!"Repeated observation of version {p.version}"⟩],
      r.settings.endOnRepeat && decide (r.settings.warmup < r.lastVersion))
  else if p.version ≤ r.settings.warmup then return ({ r with lastVersion := p.version }, [], false)
  else
    let r := { r with missed := ← r.missed? p.version, lastVersion := p.version }
    if seen < p.writtenAt then
      let early ← Word.sub? p.writtenAt seen
      let r := { r with invalid := r.invalid + 1 }
      return (r, [⟨.warn, s!"Version {p.version} observed {early}ns before it was written, discarding"⟩],
        last ≤ p.version || r.settings.writes ≤ r.latencies.length)
    else
      let latency ← Word.sub? seen p.writtenAt
      let slot ← Word.sub? (← Word.sub? p.version r.settings.warmup) 1
      let r := { r with latencies := r.latencies ++ [latency], times := r.times.set slot seen }
      return (r, [], last ≤ p.version || r.settings.writes ≤ r.latencies.length)

theorem missed?_eq {version : Nat} (hversion : version < 2 ^ 64)
    (hnew : max r.lastVersion r.settings.warmup < version)
    (hmissed : r.missed ≤ max r.lastVersion r.settings.warmup) :
    r.missed? version = some (r.advance version).missed := by
  unfold missed? advance expected
  rw [Word.add?_of_lt (by omega), Option.bind_eq_bind, Option.bind_some]
  split
  case isTrue hjump =>
    rw [Word.sub?_of_le (Nat.le_of_lt hjump), Option.bind_some, Word.add?_of_lt (by omega)]
  case isFalse hnext =>
    rw [Nat.sub_eq_zero_of_le (Nat.le_of_not_lt hnext)]
    rfl

theorem account?_eq {p : Sample} {seen : Nat}
    (hfits : r.settings.warmup + r.settings.writes < 2 ^ 64) (hversion : p.version < 2 ^ 64)
    (hmissed : r.missed ≤ max r.lastVersion r.settings.warmup) :
    r.account? p seen = some (r.account p seen) := by
  unfold account? account
  rw [Word.add?_of_lt hfits, Option.bind_eq_bind, Option.bind_some]
  split
  case isTrue => rfl
  case isFalse hnew =>
    split
    case isTrue => rfl
    case isFalse hmeasured =>
      have hnext : max r.lastVersion r.settings.warmup < p.version :=
        Nat.max_lt.mpr ⟨Nat.lt_of_not_le hnew, Nat.lt_of_not_le hmeasured⟩
      rw [missed?_eq hversion hnext hmissed, Option.bind_some]
      by_cases hearly : seen < p.writtenAt
      · have hlateness := Word.sub?_of_le (Nat.le_of_lt hearly)
        simp only [hearly, hlateness, if_true, Option.bind_some]
        rfl
      · have hlatency := Word.sub?_of_le (Nat.le_of_not_lt hearly)
        have hoffset := Word.sub?_of_le (Nat.le_of_not_le hmeasured)
        have hslot : Word.sub? (p.version - r.settings.warmup) 1 =
          some (p.version - r.settings.warmup - 1) := Word.sub?_of_le (by omega)
        simp only [hearly, hlatency, hoffset, hslot, if_false, Option.bind_some]
        rfl

/-! ## Phases -/

theorem run_endSetup (h : r.endSetup.Run trace x) : x.state.bare = r.bare := by
  obtain ⟨time, rest, rfl, htime⟩ := Dialogue.Run.of_call h
  obtain ⟨_, rest, rfl, hlogged⟩ := Dialogue.Run.of_call htime
  cases hlogged
  rfl

theorem run_drain (h : r.drain.Run trace x) : ∃ v, x.state.bare = { r.bare with lastVersion := v } := by
  unfold drain at h
  split at h
  case isTrue =>
    have hend := run_endSetup h
    exact ⟨r.lastVersion, hend⟩
  case isFalse =>
    obtain ⟨before, ⟨r', found⟩, after, hlook, hafter, rfl⟩ := Dialogue.Run.of_bind h
    rw [← (run_look hlook).1]
    cases found with
    | error e =>
      cases hafter
      exact ⟨r'.lastVersion, rfl⟩
    | ok sample =>
      refine ⟨(r'.drained sample).lastVersion, ?_⟩
      replace hafter : (if r'.settings.warmup ≤ (r'.drained sample).lastVersion then
        (r'.drained sample).endSetup else .done (.again (r'.drained sample))).Run after x := hafter
      split at hafter
      case isTrue => exact run_endSetup hafter
      case isFalse =>
        cases hafter
        rfl

theorem run_openSetup (h : r.openSetup.Run trace x) :
    ∃ v, x.state.bare = { r.bare with lastVersion := v } := by
  obtain ⟨time, rest, rfl, htime⟩ := Dialogue.Run.of_call h
  obtain ⟨v, hdrain⟩ := run_drain htime
  exact ⟨v, hdrain⟩

theorem run_setupRound (h : r.setupRound.Run trace x) :
    ∃ v, x.state.bare = { r.bare with lastVersion := v } := by
  obtain ⟨outcome, rest, rfl, houtcome⟩ := Dialogue.Run.of_call h
  cases outcome with
  | updated =>
    obtain ⟨v, hdrain⟩ := run_drain houtcome
    exact ⟨v, hdrain⟩
  | timedOut =>
    obtain ⟨_, rest, rfl, hlogged⟩ := Dialogue.Run.of_call houtcome
    have hend := run_endSetup hlogged
    exact ⟨r.lastVersion, hend⟩

/-- A reader that has been set up has no accounts yet. -/
theorem accounted_of_setup {map listener : Nat} {name : String} {setup : List WorkTrace}
    (h : Rounds openSetup setupRound (.new map name plan listener) setup x) :
    Accounted plan x.state.lastVersion [] x.state := by
  obtain ⟨v, hbare⟩ : ∃ v, x.state.bare =
      { (Reader.new map name plan listener).bare with lastVersion := v } := by
    refine h.keeps (P := fun _ x => ∃ v, x.state.bare =
      { (Reader.new map name plan listener).bare with lastVersion := v })
      (fun _ _ hrun => run_openSetup hrun) fun _ r _ _ ⟨v, hbare⟩ hrun => ?_
    obtain ⟨v', hbare'⟩ := run_setupRound hrun
    replace hbare : r.bare = _ := hbare
    exact ⟨v', hbare'.trans (by rw [hbare])⟩
  have hlast : x.state.lastVersion = v := (congrArg Reader.lastVersion hbare :)
  rw [hlast]
  refine Accounted.of_bare (r := { Reader.new map name plan listener with lastVersion := v }) ?_ hbare
  constructor
  case settings => rfl
  case lastVersion => rfl
  case balance => rfl
  case room => exact Nat.zero_le _
  case latencies => rfl
  case invalid => rfl
  case length => exact List.length_replicate
  case rising => exact .nil
  case slots => exact fun i _ => recorded_replicate plan.writes i

theorem Accounted.run_runRound (h : Accounted plan first seen r) (hrun : r.runRound.Run trace x) :
    Accounted plan first (seen ++ sightings trace) x.state := by
  obtain ⟨hnone, hbare⟩ | ⟨s, hone, hroom, hbare⟩ := Reader.run_runRound hrun
  · rw [hnone, List.append_nil]
    exact h.of_bare hbare
  · rw [hone]
    rw [h.settings] at hroom
    exact (h.account hroom s).of_bare hbare

theorem accounted_of_rounds {setup run : List WorkTrace} {map listener : Nat} {name : String}
    {start : Reader} {result : Except Fault Unit}
    (hsetup : Rounds openSetup setupRound (.new map name plan listener) setup (.over start result))
    (hrun : Rounds openRun runRound start run x) :
    Accounted plan start.lastVersion (run.flatMap sightings) x.state := by
  refine hrun.keeps
    (P := fun run x => Accounted plan start.lastVersion (run.flatMap sightings) x.state)
    (fun trace x hopen => ?_) fun run r trace x hrun hround => ?_
  · obtain ⟨time, rest, rfl, htime⟩ := Dialogue.Run.of_call hopen
    cases htime
    exact (accounted_of_setup hsetup).of_bare rfl
  · rw [List.flatMap_append, List.flatMap_singleton]
    exact Accounted.run_runRound hrun hround

/-- However a reader is answered, its accounts are those of what it sighted during its run. -/
theorem accounts_balance {setup run : List WorkTrace} {map listener : Nat} {name : String}
    {start : Reader} {result : Except Fault Unit}
    (hsetup : Rounds openSetup setupRound (.new map name plan listener) setup (.over start result))
    (hrun : Rounds openRun runRound start run x) :
    Accounted plan start.lastVersion (run.flatMap sightings) x.state ∧
    ∀ r trace y, x = .again r → r.runRound.Run trace y →
      r.lastVersion ≤ y.state.lastVersion ∧ ∀ s ∈ sightings trace,
        y.state.bare = (r.account s.sample s.seen).1.bare ∧
        (plan.warmup + plan.writes < 2 ^ 64 → s.version < 2 ^ 64 →
          r.account? s.sample s.seen = some (r.account s.sample s.seen)) ∧
        (s.version ≤ max r.lastVersion plan.warmup → y.state.latencies = r.latencies ∧
          y.state.missed = r.missed ∧ y.state.invalid = r.invalid ∧ y.state.times = r.times) := by
  refine ⟨accounted_of_rounds hsetup hrun, ?_⟩
  rintro r trace y rfl hround
  have haccounted : Accounted plan start.lastVersion (run.flatMap sightings) r :=
    accounted_of_rounds hsetup hrun
  obtain ⟨hnone, hbare⟩ | ⟨s, hone, -, hbare⟩ := run_runRound hround
  · have hlast : y.state.lastVersion = r.lastVersion := (congrArg Reader.lastVersion hbare :)
    rw [hlast, hnone]
    exact ⟨Nat.le_refl _, fun s hs => nomatch hs⟩
  · have hlast : y.state.lastVersion = (r.account s.sample s.seen).1.lastVersion :=
      (congrArg Reader.lastVersion hbare :)
    rw [hlast, lastVersion_account, hone]
    refine ⟨Nat.le_max_left .., fun t ht => ?_⟩
    obtain rfl := List.mem_singleton.mp ht
    refine ⟨hbare, fun hfits hversion => ?_, fun hknown => ?_⟩
    · have hbalance := haccounted.balance
      rw [← haccounted.settings] at hfits hbalance
      exact account?_eq hfits hversion (by omega)
    · have hsame := hbare.trans (account_known (haccounted.settings ▸ hknown) _)
      exact ⟨(congrArg Reader.latencies hsame :), (congrArg Reader.missed hsame :),
        (congrArg Reader.invalid hsame :), (congrArg Reader.times hsame :)⟩

theorem accounts_balance_of_jump : ∃ setup run start r,
    let plan : ReaderSettings := ⟨3, 1, ⟨0⟩, false⟩
    Rounds openSetup setupRound (.new 0 "probe" plan 0) setup (.over start (.ok ())) ∧
    Rounds openRun runRound start run (.again r) ∧
    Accounted plan start.lastVersion (run.flatMap sightings) r ∧
    start.lastVersion = 1 ∧ r.latencies = [5] ∧ r.missed = 1 ∧ r.times = [0, 12, 0] := by
  let reader := Reader.new 0 "probe" ⟨3, 1, ⟨0⟩, false⟩ 0
  let start := { reader with lastVersion := 1, warmup := ⟨some 4, some 4⟩ }
  let opened := { start with measure := ⟨some 5, none⟩ }
  let jumped :=
    { opened with lastVersion := 3, latencies := [5], times := [0, 12, 0], missed := 1 }
  have hstart : (reader.openSetup.play (Work.steady ⟨1, 3⟩ 4)).2 = .over start (.ok ()) := by
    unfold openSetup drain look
    rfl
  have hjumped : (opened.runRound.play (Work.steady ⟨3, 7⟩ 12)).2 = .again jumped := by
    unfold runRound watch look
    rfl
  have hsetup : Rounds openSetup setupRound reader _ (.over start (.ok ())) :=
    .opened (Dialogue.run_of_play hstart)
  have hopened : Rounds openRun runRound start _ (.again opened) :=
    .opened (Dialogue.run_play (Work.steady ⟨1, 3⟩ 5) start.openRun)
  have hrun : Rounds openRun runRound start _ (.again jumped) :=
    hopened.further (Dialogue.run_of_play hjumped)
  exact ⟨_, _, start, jumped, hsetup, hrun, (accounts_balance hsetup hrun).1, rfl, rfl, rfl, rfl⟩

end Reader

end Lagmeter
