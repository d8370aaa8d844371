import Lagmeter.Node.Reader
import Lagmeter.Proofs.Feed.Ledger

/-!
# What a reader records

A reader keeps two records of what it observes: the list of its latencies, and the time at which it
saw each version first. It takes a version only if it is newer than all that it has seen, so both
records grow in the order of the versions and say the same.
-/

namespace Lagmeter

open Delivery Ledger

def Round.state {σ : Type} : Round σ → σ
  | .again s => s
  | .over s _ => s

namespace Reader

/-- Samples may be published between the calls of a reader. -/
def terms (limit : Nat) : Terms where
  drift l l' := l.published <+: l'.published ∧ l.wall ≤ l'.wall ∧ l'.Sound limit
  asks _ _ := True

theorem drift_refl {limit : Nat} {l : Ledger} (h : l.Sound limit) : (terms limit).drift l l :=
  ⟨List.prefix_rfl, Nat.le_refl _, h⟩

theorem drift_trans {limit : Nat} (l₁ l₂ l₃ : Ledger) (h₁ : (terms limit).drift l₁ l₂)
    (h₂ : (terms limit).drift l₂ l₃) : (terms limit).drift l₁ l₃ :=
  ⟨h₁.1.trans h₂.1, Nat.le_trans h₁.2.1 h₂.2.1, h₂.2.2⟩

/-- The time from the write of a version until this reader saw it, if it did. -/
def delay? (plan : WriterSettings) (published : List Sample) (r : Reader) (v : Nat) : Option Nat :=
  if recorded r.times v = 0 then none
  else some (recorded r.times v - timeOf published (plan.warmup + v + 1))

/-- The records of the reader agree with each other and with what was published. -/
structure Honest (plan : WriterSettings) (l : Ledger) (r : Reader) : Prop where
  writes : r.settings.writes = plan.writes
  warmup : r.settings.warmup = plan.warmup
  length : r.times.length = plan.writes
  invalid : r.invalid = 0
  slot : ∀ v, recorded r.times v ≠ 0 → recorded r.times v ≤ l.wall ∧ ∃ p ∈ l.published,
    p.version = plan.warmup + v + 1 ∧ p.writtenAt ≤ recorded r.times v ∧ p.version ≤ r.lastVersion
  latencies : r.latencies = (List.range plan.writes).filterMap (r.delay? plan l.published)

variable {limit : Nat} {plan : WriterSettings} {p : Sample} {l l' : Ledger} {r r' : Reader}

theorem honest_new (map : Nat) (name : String) (settings : ReaderSettings) (listener : Nat)
    (hwrites : settings.writes = plan.writes) (hwarmup : settings.warmup = plan.warmup) :
    (Reader.new map name settings listener).Honest plan l := by
  have hzero := recorded_replicate settings.writes
  constructor
  case writes => exact hwrites
  case warmup => exact hwarmup
  case length => rw [Reader.new, List.length_replicate, hwrites]
  case invalid => rfl
  case slot => exact fun v hv => absurd (hzero v) hv
  case latencies => exact (List.filterMap_eq_nil_iff.mpr fun v _ => if_pos (hzero v)).symm

theorem Honest.same (h : r.Honest plan l) (hsettings : r'.settings = r.settings)
    (htimes : r'.times = r.times) (hinvalid : r'.invalid = r.invalid)
    (hlatencies : r'.latencies = r.latencies) (hlast : r.lastVersion ≤ r'.lastVersion) :
    r'.Honest plan l where
  writes := hsettings ▸ h.writes
  warmup := hsettings ▸ h.warmup
  length := htimes ▸ h.length
  invalid := hinvalid.trans h.invalid
  slot v hv := by
    rw [htimes] at hv ⊢
    obtain ⟨hle, p, hp, hversion, hwritten, hseen⟩ := h.slot v hv
    exact ⟨hle, p, hp, hversion, hwritten, Nat.le_trans hseen hlast⟩
  latencies := by
    rw [hlatencies, h.latencies]
    refine List.filterMap_congr fun v _ => ?_
    rw [delay?, delay?, htimes]

theorem Honest.drift (h : r.Honest plan l) (hdrift : (terms limit).drift l l') :
    r.Honest plan l' where
  writes := h.writes
  warmup := h.warmup
  length := h.length
  invalid := h.invalid
  slot v hv := by
    obtain ⟨hle, p, hp, hrest⟩ := h.slot v hv
    exact ⟨Nat.le_trans hle hdrift.2.1, p, hdrift.1.subset hp, hrest⟩
  latencies := by
    obtain ⟨hearlier, -, hsound⟩ := hdrift
    rw [h.latencies]
    refine List.filterMap_congr fun v _ => ?_
    unfold delay?
    split
    case isTrue => rfl
    case isFalse hv =>
      obtain ⟨-, p, hp, hversion, -⟩ := h.slot v hv
      rw [← hversion, timeOf_of_mem hsound.rising (hearlier.subset hp),
        timeOf_of_mem (hsound.rising.sublist hearlier.sublist) hp]

/-! ## Accounts -/

theorem filterMap_range_extended {α : Type} {f g : Nat → Option α} {k n : Nat} {a : α} (hk : k < n)
    (hg : g k = some a) (hsame : ∀ v, v ≠ k → g v = f v) (hlate : ∀ v, k ≤ v → f v = none) :
    (List.range n).filterMap g = (List.range n).filterMap f ++ [a] := by
  induction n with
  | zero => omega
  | succ n ih =>
    rw [List.range_succ, List.filterMap_append, List.filterMap_append,
      List.filterMap_cons_none (hlate n (by omega)), List.filterMap_nil, List.append_nil]
    by_cases hlast : k = n
    · subst hlast
      rw [List.filterMap_cons_some hg, List.filterMap_nil]
      congr 1
      refine List.filterMap_congr fun v hv => hsame v ?_
      exact Nat.ne_of_lt (List.mem_range.mp hv)
    · have hnone : g n = none := (hsame n (Ne.symm hlast)).trans (hlate n (by omega))
      rw [List.filterMap_cons_none hnone, List.filterMap_nil, List.append_nil]
      exact ih (by omega)

theorem Honest.take (h : r.Honest plan l) (hsound : l.Sound (plan.warmup + plan.writes))
    (hp : p ∈ l.published) (hnew : r.lastVersion < p.version) (hmeasured : plan.warmup < p.version) :
    ((r.advance p.version).take p l.wall).Honest plan l := by
  have hwarmup := h.warmup
  have hlimit := hsound.bounded p hp
  have hstarted := hsound.started
  have hself : plan.warmup + (p.version - plan.warmup - 1) + 1 = p.version := by omega
  have hslot : p.version - plan.warmup - 1 < r.times.length := by
    rw [h.length]
    omega
  have htimes (v : Nat) : recorded ((r.advance p.version).take p l.wall).times v =
      if v = p.version - plan.warmup - 1 then l.wall else recorded r.times v := by
    rw [← hwarmup]
    exact recorded_set (hwarmup.symm ▸ hslot) l.wall v
  constructor
  case writes => exact h.writes
  case warmup => exact h.warmup
  case length => exact (List.length_set ..).trans h.length
  case invalid => exact h.invalid
  case slot =>
    intro v hv
    rw [htimes] at hv ⊢
    split
    case isTrue hhere =>
      exact ⟨Nat.le_refl _, p, hp, by omega, (hsound.timely p hp).2, Nat.le_refl _⟩
    case isFalse helse =>
      rw [if_neg helse] at hv
      obtain ⟨hle, q, hq, hversion, hwritten, hseen⟩ := h.slot v hv
      exact ⟨hle, q, hq, hversion, hwritten, by show _ ≤ p.version; omega⟩
  case latencies =>
    -- No later version has been seen yet, so the new latency is the last.
    have hlate (v : Nat) (hv : p.version - plan.warmup - 1 ≤ v) :
        r.delay? plan l.published v = none := by
      by_contra hsome
      have hv' : recorded r.times v ≠ 0 := fun hzero => hsome (if_pos hzero)
      obtain ⟨-, q, -, hversion, -, hseen⟩ := h.slot v hv'
      omega
    show r.latencies ++ [l.wall - p.writtenAt] = _
    rw [h.latencies]
    symm
    refine filterMap_range_extended (k := p.version - plan.warmup - 1) (by omega) ?_ ?_ hlate
    · rw [delay?, htimes, if_pos rfl, if_neg (by omega), hself, timeOf_of_mem hsound.rising hp]
    · intro v hv
      rw [delay?, delay?, htimes, if_neg hv]

theorem Honest.account (h : r.Honest plan l) (hsound : l.Sound (plan.warmup + plan.writes))
    (hp : p.version = 0 ∨ p ∈ l.published) : (r.account p l.wall).1.Honest plan l := by
  have hwarmup := h.warmup
  unfold Reader.account
  split
  case isTrue => exact h.same rfl rfl rfl rfl (Nat.le_refl _)
  case isFalse hnew =>
    split
    case isTrue => exact h.same rfl rfl rfl rfl (by show _ ≤ p.version; omega)
    case isFalse hmeasured =>
      have hmem : p ∈ l.published := hp.resolve_left (by omega)
      have hwritten := (hsound.timely p hmem).2
      rw [if_neg (by omega)]
      exact h.take hsound hmem (by omega) (by omega)

/-! ## Looking -/

def Recorded (plan : WriterSettings) (l : Ledger) (x : Round Reader) : Prop :=
  x.state.Honest plan l

theorem keeps_look (left : Nat) (h : r.Honest plan l) :
    (look left r).Keeps (terms limit) (fun l x => x.1.Honest plan l ∧
      ∀ p, x.2 = .ok (some p) → p.version = 0 ∨ p ∈ l.published) l := by
  induction left generalizing r l with
  | zero =>
    unfold look
    intro l₁ hdrift₁
    refine ⟨trivial, fun a ha => ?_⟩
    cases a with
    | ok sample => exact ⟨h.drift hdrift₁, fun p hp => ha p (congrArg _ (Except.ok.inj hp))⟩
    | error e => exact ⟨(h.drift hdrift₁).same rfl rfl rfl rfl (Nat.le_refl _), nofun⟩
  | succ left ih =>
    unfold look
    intro l₁ hdrift₁
    refine ⟨trivial, fun a ha => ?_⟩
    cases a with
    | ok sample => exact ⟨h.drift hdrift₁, fun p hp => ha p (congrArg _ (Except.ok.inj hp))⟩
    | error e =>
      intro l₂ hdrift₂
      refine ⟨trivial, fun _ _ => ?_⟩
      intro l₃ hdrift₃
      refine ⟨trivial, fun _ _ => ih ?_⟩
      exact (((h.drift hdrift₁).drift hdrift₂).drift hdrift₃).same rfl rfl rfl rfl (Nat.le_refl _)

theorem keeps_tell (events : List Event) (h : r.Honest plan l) :
    (tell events).Keeps (terms limit) (fun l _ => r.Honest plan l) l := by
  induction events generalizing l with
  | nil => exact h
  | cons e rest ih => exact fun l' hdrift => ⟨trivial, fun _ _ => ih (h.drift hdrift)⟩

/-! ## Setup -/

theorem keeps_endSetup (h : r.Honest plan l) :
    r.endSetup.Keeps (terms limit) (Recorded plan) l := by
  intro l₁ hdrift₁
  refine ⟨trivial, fun (finish : Nat) _ => ?_⟩
  intro l₂ hdrift₂
  exact ⟨trivial, fun _ _ => ((h.drift hdrift₁).drift hdrift₂).same rfl rfl rfl rfl (Nat.le_refl _)⟩

theorem keeps_drain (h : r.Honest plan l) :
    r.drain.Keeps (terms limit) (Recorded plan) l := by
  unfold drain
  split
  case isTrue => exact keeps_endSetup h
  case isFalse =>
    refine (keeps_look _ h).bind ?_
    rintro l₁ ⟨r₁, found⟩ ⟨h₁, -⟩
    cases found with
    | error e => exact h₁
    | ok sample =>
      have h₂ : (r₁.drained sample).Honest plan l₁ :=
        h₁.same rfl rfl rfl rfl (Nat.le_max_left _ _)
      show Dialogue.Keeps _ _ _ (if (r₁.drained sample).settings.warmup ≤ _ then _ else _)
      split
      case isTrue => exact keeps_endSetup h₂
      case isFalse => exact h₂

theorem keeps_openSetup (h : r.Honest plan l) :
    r.openSetup.Keeps (terms limit) (Recorded plan) l := by
  intro l₁ hdrift₁
  refine ⟨trivial, fun (start : Nat) _ => keeps_drain ?_⟩
  exact (h.drift hdrift₁).same rfl rfl rfl rfl (Nat.le_refl _)

theorem keeps_setupRound (h : r.Honest plan l) :
    r.setupRound.Keeps (terms limit) (Recorded plan) l := by
  intro l₁ hdrift₁
  refine ⟨trivial, fun outcome _ => ?_⟩
  cases outcome with
  | updated => exact keeps_drain (h.drift hdrift₁)
  | timedOut =>
    intro l₂ hdrift₂
    exact ⟨trivial, fun _ _ => keeps_endSetup ((h.drift hdrift₁).drift hdrift₂)⟩

/-! ## Run -/

theorem keeps_openRun (h : r.Honest plan l) :
    r.openRun.Keeps (terms limit) (Recorded plan) l := by
  intro l₁ hdrift₁
  exact ⟨trivial, fun (start : Nat) _ => (h.drift hdrift₁).same rfl rfl rfl rfl (Nat.le_refl _)⟩

theorem keeps_endRun (h : r.Honest plan l) (result : Except Fault Unit) :
    (r.endRun result).Keeps (terms limit) (Recorded plan) l := by
  intro l₁ hdrift₁
  refine ⟨trivial, fun (finish : Nat) _ => ?_⟩
  intro l₂ hdrift₂
  exact ⟨trivial, fun _ _ => ((h.drift hdrift₁).drift hdrift₂).same rfl rfl rfl rfl (Nat.le_refl _)⟩

theorem keeps_watch (h : r.Honest plan l) :
    r.watch.Keeps (terms (plan.warmup + plan.writes)) (Recorded plan) l := by
  refine (keeps_look _ h).bind ?_
  rintro l₁ ⟨r₁, found⟩ ⟨h₁, hfound⟩
  cases found with
  | error e => exact keeps_endRun h₁ _
  | ok sample =>
    cases sample with
    | none => exact h₁
    | some p =>
      intro l₂ hdrift₂
      refine ⟨trivial, ?_⟩
      rintro time (rfl : time = l₂.wall)
      have hp : p.version = 0 ∨ p ∈ l₂.published :=
        (hfound p rfl).imp_right fun hmem => hdrift₂.1.subset hmem
      have h₂ := (h₁.drift hdrift₂).account hdrift₂.2.2 hp
      refine (keeps_tell _ h₂).bind ?_
      intro l₃ _ h₃
      show Dialogue.Keeps _ _ _ (if (r₁.account p l₂.wall).2.2 = true then _ else _)
      split
      case isTrue => exact keeps_endRun h₃ _
      case isFalse => exact h₃

theorem keeps_runRound (h : r.Honest plan l) :
    r.runRound.Keeps (terms (plan.warmup + plan.writes)) (Recorded plan) l := by
  unfold runRound
  split
  case isTrue => exact keeps_endRun h _
  case isFalse =>
    intro l₁ hdrift₁
    refine ⟨trivial, fun outcome _ => ?_⟩
    cases outcome with
    | updated => exact keeps_watch (h.drift hdrift₁)
    | timedOut =>
      intro l₂ hdrift₂
      refine ⟨trivial, fun _ _ => keeps_endRun ?_ _⟩
      exact ((h.drift hdrift₁).drift hdrift₂).same rfl rfl rfl rfl (Nat.le_refl _)

end Reader

end Lagmeter
