import Lagmeter.Node.Writer
import Lagmeter.Proofs.Feed.Ledger

/-!
# What a writer records

A writer publishes its versions in order, each with the time that the clock showed. A version that
it has to try again gets a new time. The time that it records for a version is the one that it was
published with, and there is none for a version that it did not publish.
-/

namespace Lagmeter

open Delivery Ledger

namespace Writer

/-- Nothing but the clock goes on between the calls of a writer. -/
def terms (limit : Nat) (keys : List Int) : Terms where
  drift l l' := l'.published = l.published ∧ l.wall ≤ l'.wall ∧ l'.Sound limit
  asks l call := match call with
    | .store (.populate keys') => keys' = keys
    | .store (.publish p) => (l.publish p).Sound limit
    | _ => True

theorem drift_trans {limit : Nat} {keys : List Int} (l₁ l₂ l₃ : Ledger)
    (h₁ : (terms limit keys).drift l₁ l₂) (h₂ : (terms limit keys).drift l₂ l₃) :
    (terms limit keys).drift l₁ l₃ :=
  ⟨h₂.1.trans h₁.1, Nat.le_trans h₁.2.1 h₂.2.1, h₂.2.2⟩

/-- The writer has recorded what was published, which is below a version. -/
structure Tracks (plan : WriterSettings) (published : List Sample) (bound : Nat) (w : Writer) :
    Prop where
  settings : w.settings = plan
  length : w.times.length = plan.writes
  times : ∀ v < plan.writes, recorded w.times v = timeOf published (plan.warmup + v + 1)
  below : ∀ p ∈ published, p.version < bound

variable {limit : Nat} {keys : List Int} {plan : WriterSettings} {log : List Sample}
  {bound version : Nat} {w w' : Writer} {l : Ledger}

theorem Tracks.same (h : w.Tracks plan log bound) (hsettings : w'.settings = w.settings)
    (htimes : w'.times = w.times) : w'.Tracks plan log bound where
  settings := hsettings.trans h.settings
  length := htimes ▸ h.length
  times := htimes ▸ h.times
  below := h.below

theorem Tracks.mono {bound' : Nat} (h : w.Tracks plan log bound) (hle : bound ≤ bound') :
    w.Tracks plan log bound' :=
  { h with below := fun p hp => Nat.lt_of_lt_of_le (h.below p hp) hle }

theorem tracks_new (map : Nat) (name : String) (keys : List Int) (plan : WriterSettings) :
    (Writer.new map name keys plan).Tracks plan [] 1 where
  settings := rfl
  length := List.length_replicate
  times v _ := recorded_replicate plan.writes v
  below := nofun

theorem Tracks.warm (h : w.Tracks plan log version) (hversion : version ≤ plan.warmup)
    (time : Nat) : w.Tracks plan (log ++ [⟨version, time⟩]) (version + 1) where
  settings := h.settings
  length := h.length
  times v hv := by
    rw [timeOf_append_of_ne (by show version ≠ _; omega)]
    exact h.times v hv
  below p hp := by
    rcases List.mem_append.mp hp with hold | hnew
    · exact Nat.lt_succ_of_lt (h.below p hold)
    · rw [List.mem_singleton.mp hnew]
      exact Nat.lt_succ_self _

theorem Tracks.record (h : w.Tracks plan log version) (hversion : plan.warmup < version)
    (hlimit : version ≤ plan.warmup + plan.writes) (time : Nat) :
    (w.record version time).Tracks plan (log ++ [⟨version, time⟩]) (version + 1) where
  settings := h.settings
  length := by
    rw [Writer.record, List.length_set]
    exact h.length
  times v hv := by
    have hslots : version - w.settings.warmup - 1 < w.times.length := by
      rw [h.length, h.settings]
      omega
    rw [Writer.record, recorded_set hslots, h.settings]
    by_cases hslot : v = version - plan.warmup - 1
    · have hself : plan.warmup + v + 1 = version := by omega
      rw [if_pos hslot, hself]
      have hfresh : ∀ q ∈ log, q.version ≠ version := fun q hq => Nat.ne_of_lt (h.below q hq)
      exact (timeOf_append_self (p := ⟨version, time⟩) hfresh).symm
    · rw [if_neg hslot, timeOf_append_of_ne (by show version ≠ _; omega)]
      exact h.times v hv
  below p hp := by
    rcases List.mem_append.mp hp with hold | hnew
    · exact Nat.lt_succ_of_lt (h.below p hold)
    · rw [List.mem_singleton.mp hnew]
      exact Nat.lt_succ_self _

/-! ## One version -/

/-- What was published after an attempt to publish a version. -/
def Published (log : List Sample) (version : Nat) (l : Ledger) : Except Fault Nat → Prop
  | .ok time => l.published = log ++ [⟨version, time⟩]
  | .error _ => l.published = log

theorem sound_publish (h : l.Sound limit) (hbelow : ∀ p ∈ l.published, p.version < version)
    (hlimit : version ≤ limit) {time : Nat} (htime : 0 < time ∧ time ≤ l.wall) :
    (l.publish ⟨version, time⟩).Sound limit where
  rising := by
    refine List.pairwise_append.mpr ⟨h.rising, List.pairwise_singleton _ _, fun q hq p hp => ?_⟩
    rw [List.mem_singleton.mp hp]
    exact hbelow q hq
  bounded p hp := by
    rcases List.mem_append.mp hp with hold | hnew
    · exact h.bounded p hold
    · rwa [List.mem_singleton.mp hnew]
  timely p hp := by
    rcases List.mem_append.mp hp with hold | hnew
    · exact h.timely p hold
    · rwa [List.mem_singleton.mp hnew]
  started := h.started

theorem keeps_publish (hbelow : ∀ p ∈ log, p.version < version) (hlimit : version ≤ limit)
    (left : Nat) (w : Writer) (hl : l.published = log) :
    (publish version left w).Keeps (terms limit keys) (fun l x =>
      x.1.settings = w.settings ∧ x.1.times = w.times ∧ Published log version l x.2) l := by
  induction left generalizing w l with
  | zero =>
    unfold publish
    rintro l₁ ⟨hl₁, -, hsound₁⟩
    refine ⟨trivial, ?_⟩
    rintro now (rfl : now = l₁.wall) l₂ ⟨hl₂, hwall₂, hsound₂⟩
    have hlog : l₂.published = log := hl₂.trans (hl₁.trans hl)
    refine ⟨sound_publish hsound₂ (hlog ▸ hbelow) hlimit ⟨hsound₁.started, hwall₂⟩, fun a _ => ?_⟩
    cases a with
    | ok => exact ⟨rfl, rfl, congrArg (· ++ _) hlog⟩
    | error e => exact ⟨rfl, rfl, hlog⟩
  | succ left ih =>
    unfold publish
    rintro l₁ ⟨hl₁, -, hsound₁⟩
    refine ⟨trivial, ?_⟩
    rintro now (rfl : now = l₁.wall) l₂ ⟨hl₂, hwall₂, hsound₂⟩
    have hlog : l₂.published = log := hl₂.trans (hl₁.trans hl)
    refine ⟨sound_publish hsound₂ (hlog ▸ hbelow) hlimit ⟨hsound₁.started, hwall₂⟩, fun a _ => ?_⟩
    cases a with
    | ok => exact ⟨rfl, rfl, congrArg (· ++ _) hlog⟩
    | error e =>
      rintro l₃ ⟨hl₃, -, -⟩
      refine ⟨trivial, fun _ _ => ?_⟩
      rintro l₄ ⟨hl₄, -, -⟩
      exact ⟨trivial, fun _ _ => ih w.failed (hl₄.trans (hl₃.trans hlog))⟩

/-! ## Bursts -/

theorem keeps_pace (w : Writer) (perInterval remaining : Nat) (b : Burst) (hl : l.published = log) :
    (w.pace perInterval remaining b).Keeps (terms limit keys) (fun l x =>
      x.1.settings = w.settings ∧ x.1.times = w.times ∧ l.published = log) l := by
  unfold pace
  split
  case isTrue => exact ⟨rfl, rfl, hl⟩
  case isFalse =>
    rintro l₁ ⟨hl₁, -, -⟩
    refine ⟨trivial, fun (now : Nat) _ => ?_⟩
    show Dialogue.Keeps _ _ _ (if _ then _ else _)
    split
    case isTrue =>
      rintro l₂ ⟨hl₂, -, -⟩
      exact ⟨trivial, fun _ _ => ⟨rfl, rfl, hl₂.trans (hl₁.trans hl)⟩⟩
    case isFalse => exact ⟨rfl, rfl, hl₁.trans hl⟩

/-- The versions that a burst may still write: measured ones have a slot, and others come before. -/
def InRange (plan : WriterSettings) (measured : Bool) (version remaining : Nat) : Prop :=
  if measured then plan.warmup < version ∧ version + remaining ≤ plan.warmup + plan.writes + 1
  else version + remaining ≤ plan.warmup + 1

theorem InRange.next {measured : Bool} {remaining : Nat}
    (h : InRange plan measured version (remaining + 1)) :
    version ≤ plan.warmup + plan.writes ∧ InRange plan measured (version + 1) remaining := by
  cases measured with
  | true =>
    obtain ⟨hmeasured, hlast⟩ := h
    exact ⟨by omega, by omega, by omega⟩
  | false =>
    have hlast : version + (remaining + 1) ≤ plan.warmup + 1 := h
    exact ⟨by omega, by show _ ≤ _; omega⟩

theorem Tracks.published {measured : Bool} {remaining : Nat} (h : w.Tracks plan log version)
    (hrange : InRange plan measured version (remaining + 1)) (time : Nat) :
    (if measured then w.record version time else w).Tracks plan (log ++ [⟨version, time⟩])
      (version + 1) := by
  cases measured with
  | true => exact h.record hrange.1 hrange.next.1 time
  | false =>
    have hlast : version + (remaining + 1) ≤ plan.warmup + 1 := hrange
    exact h.warm (by omega) time

theorem keeps_publishAll {measured : Bool} (perInterval : Nat) {remaining : Nat} (b : Burst)
    (h : w.Tracks plan l.published version) (hrange : InRange plan measured version remaining) :
    (publishAll measured perInterval remaining version b w).Keeps
      (terms (plan.warmup + plan.writes) keys)
      (fun l x => x.1.Tracks plan l.published (version + remaining)) l := by
  induction remaining generalizing version b w l with
  | zero => exact h
  | succ remaining ih =>
    unfold publishAll
    refine (keeps_publish h.below hrange.next.1 _ w rfl).bind ?_
    rintro l₁ ⟨w₁, result⟩ ⟨hsettings₁, htimes₁, hpublished⟩
    have h₁ : w₁.Tracks plan l.published version := h.same hsettings₁ htimes₁
    cases result with
    | error e =>
      have hsame : l₁.published = l.published := hpublished
      show w₁.Tracks plan l₁.published _
      rw [hsame]
      exact h₁.mono (Nat.le_add_right ..)
    | ok time =>
      have hnew : l₁.published = l.published ++ [⟨version, time⟩] := hpublished
      have h₂ := h₁.published hrange time
      rw [← hnew] at h₂
      refine (keeps_pace _ perInterval remaining b rfl).bind ?_
      rintro l₂ ⟨w₂, b₂⟩ ⟨hsettings₂, htimes₂, hl₂⟩
      have h₃ := h₂.same hsettings₂ htimes₂
      rw [← hl₂] at h₃
      rw [← Nat.succ_add_eq_add_succ]
      exact ih b₂ h₃ hrange.next.2

theorem keeps_writeVersions {measured : Bool} {count : Nat} (h : w.Tracks plan l.published version)
    (hrange : InRange plan measured version count) :
    (w.writeVersions measured count version).Keeps (terms (plan.warmup + plan.writes) keys)
      (fun l x => x.1.Tracks plan l.published (version + count)) l := by
  unfold writeVersions
  show Dialogue.Keeps _ _ _ (if _ then _ else _)
  split
  case isTrue => exact h.mono (Nat.le_add_right ..)
  case isFalse =>
    rintro l₁ ⟨hl₁, -, -⟩
    refine ⟨trivial, fun (start : Nat) _ => ?_⟩
    rintro l₂ ⟨hl₂, -, -⟩
    refine ⟨trivial, fun (anchor : Nat) _ => ?_⟩
    have hlog : l₂.published = l.published := hl₂.trans hl₁
    have h₂ : w.Tracks plan l₂.published version := by rwa [hlog]
    refine (keeps_publishAll _ _ h₂ hrange).bind ?_
    rintro l₃ ⟨w₃, result⟩ h₃
    cases result with
    | error e => exact h₃
    | ok =>
      rintro l₄ ⟨hl₄, -, -⟩
      refine ⟨trivial, fun (finish : Nat) _ => ?_⟩
      have hlog : l₄.published = l₃.published := hl₄
      show w₃.Tracks plan l₄.published _
      rwa [hlog]

/-! ## Phases -/

theorem keeps_prepare (h : w.Tracks plan l.published bound) (hkeys : w.keys = keys) :
    w.prepare.Keeps (terms limit keys) (fun l x => x.1.Tracks plan l.published bound) l := by
  have hsame {w' : Writer} {l' : Ledger} (hsettings : w'.settings = w.settings)
      (htimes : w'.times = w.times) (hl : l'.published = l.published) :
      w'.Tracks plan l'.published bound := by
    rw [hl]
    exact h.same hsettings htimes
  rintro l₁ ⟨hl₁, -, -⟩
  refine ⟨hkeys, fun a _ => ?_⟩
  cases a with
  | error e => exact hsame rfl rfl hl₁
  | ok populated =>
    rintro l₂ ⟨hl₂, -, -⟩
    refine ⟨trivial, fun _ _ => ?_⟩
    rintro l₃ ⟨hl₃, -, -⟩
    refine ⟨trivial, fun a _ => ?_⟩
    have hlog : l₃.published = l.published := hl₃.trans (hl₂.trans hl₁)
    cases a with
    | error e => exact hsame rfl rfl hlog
    | ok churned =>
      show Dialogue.Keeps _ _ _ (if 0 < churned then _ else _)
      split
      case isTrue =>
        rintro l₄ ⟨hl₄, -, -⟩
        exact ⟨trivial, fun _ _ => hsame rfl rfl (hl₄.trans hlog)⟩
      case isFalse => exact hsame rfl rfl hlog

theorem keeps_warmUp (h : w.Tracks plan l.published 1) :
    w.warmUp.Keeps (terms (plan.warmup + plan.writes) keys)
      (fun l x => x.1.Tracks plan l.published (plan.warmup + 1)) l := by
  have hrange : InRange plan false 1 plan.warmup := Nat.le_of_eq (Nat.add_comm ..)
  -- Whether anything was written or not, the window is closed then.
  have hend {w : Writer} {l : Ledger} (h : w.Tracks plan l.published (plan.warmup + 1)) :
      (Work.wallClock.bind fun finish => .done ({ w with
        warmup := { w.warmup with finish := some finish } }, Except.ok ())).Keeps
        (terms (plan.warmup + plan.writes) keys)
        (fun l (x : Writer × Except Fault Unit) => x.1.Tracks plan l.published (plan.warmup + 1)) l := by
    rintro l' ⟨hl', -, -⟩
    refine ⟨trivial, fun (finish : Nat) _ => ?_⟩
    have hlog : l'.published = l.published := hl'
    show Tracks plan l'.published _ _
    rw [hlog]
    exact h.same rfl rfl
  rintro l₁ ⟨hl₁, -, -⟩
  refine ⟨trivial, fun (start : Nat) _ => ?_⟩
  have hlog : l₁.published = l.published := hl₁
  have h₁ : ({ w with warmup := { w.warmup with start := some start } } : Writer).Tracks plan
      l₁.published 1 := by
    rw [hlog]
    exact h.same rfl rfl
  show Dialogue.Keeps _ _ _ (if w.settings.warmup = 0 then _ else _)
  split
  case isTrue => exact hend (h₁.mono (by omega))
  case isFalse =>
    have hwarmup : w.settings.warmup = plan.warmup := by rw [h.settings]
    refine (keeps_writeVersions h₁ (hwarmup.symm ▸ hrange)).bind ?_
    rintro l₂ ⟨w₂, result⟩ hwritten
    have h₂ : w₂.Tracks plan l₂.published (plan.warmup + 1) := by
      rw [Nat.add_comm plan.warmup, ← hwarmup]
      exact hwritten
    cases result with
    | error e => exact h₂
    | ok => exact hend h₂

theorem keeps_setup (h : w.Tracks plan l.published 1) (hkeys : w.keys = keys) :
    w.setup.Keeps (terms (plan.warmup + plan.writes) keys)
      (fun l x => x.1.Tracks plan l.published (plan.warmup + 1)) l := by
  refine (keeps_prepare h hkeys).bind ?_
  rintro l' ⟨w', result⟩ h'
  cases result with
  | error e => exact h'.mono (by omega)
  | ok => exact keeps_warmUp h'

theorem keeps_run (h : w.Tracks plan l.published (plan.warmup + 1)) :
    w.run.Keeps (terms (plan.warmup + plan.writes) keys)
      (fun l x => x.1.Tracks plan l.published (plan.warmup + plan.writes + 1)) l := by
  have hwarmup : w.settings.warmup = plan.warmup := by rw [h.settings]
  have hwrites : w.settings.writes = plan.writes := by rw [h.settings]
  have hrange : InRange plan true (w.settings.warmup + 1) w.settings.writes := ⟨by omega, by omega⟩
  rintro l₁ ⟨hl₁, -, -⟩
  refine ⟨trivial, fun (start : Nat) _ => ?_⟩
  have hlog : l₁.published = l.published := hl₁
  have h₁ : ({ w with measure := { w.measure with start := some start } } : Writer).Tracks plan
      l₁.published (w.settings.warmup + 1) := by
    rw [hlog, hwarmup]
    exact h.same rfl rfl
  refine (keeps_writeVersions h₁ hrange).bind ?_
  rintro l₂ ⟨w₂, result⟩ hwritten
  have h₂ : w₂.Tracks plan l₂.published (plan.warmup + plan.writes + 1) :=
    hwritten.mono (by show w.settings.warmup + 1 + w.settings.writes ≤ _; omega)
  rintro l₃ ⟨hl₃, -, -⟩
  refine ⟨trivial, fun (finish : Nat) _ => ?_⟩
  have hlog : l₃.published = l₂.published := hl₃
  rw [← hlog] at h₂
  cases result with
  | error e => exact h₂.same rfl rfl
  | ok t =>
    rintro l₄ ⟨hl₄, -, -⟩
    refine ⟨trivial, fun _ _ => ?_⟩
    have hlog : l₄.published = l₃.published := hl₄
    show Tracks plan l₄.published _ _
    rw [hlog]
    exact h₂.same rfl rfl

/-- All that a writer does in a cycle but for its shutdown. A setup that failed does not keep it
from its run. -/
def work (w : Writer) : Dialogue Work (Writer × Except Fault Unit) :=
  w.setup.bind fun x => x.1.run

theorem keeps_work (map : Nat) (name : String) (keys : List Int) (plan : WriterSettings) (wall : Nat) :
    (Writer.new map name keys plan).work.Keeps (terms (plan.warmup + plan.writes) keys)
      (fun l x => x.1.Tracks plan l.published (plan.warmup + plan.writes + 1)) { wall } :=
  (keeps_setup (tracks_new map name keys plan) rfl).bind fun _ _ h => keeps_run h

end Writer

end Lagmeter
