import Lagmeter.Proofs.Feed.Basic

/-!
# The rounds of a reader

A round takes at most one change from the watcher, and then it looks. What it looks at goes into the
last version of the reader. So a reader that has taken a change is about to observe, and a reader
that waits has accounted for all that it observed.
-/

namespace Lagmeter

variable {α β : Type}

namespace Dialogue

/-- The next call is an observation. -/
def Observes : Dialogue Work α → Prop
  | .ask (.store .observe) _ => True
  | _ => False

/-- What the dialogue comes to fits the newest version seen, which is `n` so far. It waits only at `origin`.
-/
def Sees (origin : Nat) (P : Nat → α → Prop) (n : Nat) : Dialogue Work α → Prop
  | .done a => P n a
  | .ask call next => match call, next with
    | .store .observe, next => ∀ sample : Option Sample,
        Sees origin P (max n (sample.elim 0 Sample.version)) (next (.ok sample))
    | .store _, _ => False
    | .await _, next => n = origin ∧ (next .updated).Observes ∧
        Sees origin P n (next .updated) ∧ Sees origin P n (next .timedOut)
    | _, next => ∀ a, Sees origin P n (next a)

variable {origin n : Nat} {P : Nat → α → Prop} {Q : Nat → β → Prop}

theorem Observes.bind {d : Dialogue Work α} (h : d.Observes) (f : α → Dialogue Work β) :
    (d.bind f).Observes := by
  cases d with
  | done a => cases h
  | ask call next =>
    cases call with
    | store call =>
      cases call with
      | observe => trivial
      | populate | churn | publish | unsubscribe | entries => cases h
    | await | changes | sleep | sleepUntil | moment | wallClock | stopwatch | log => cases h

theorem Sees.bind {d : Dialogue Work α} {f : α → Dialogue Work β} (h : d.Sees origin P n)
    (hf : ∀ n a, P n a → (f a).Sees origin Q n) : (d.bind f).Sees origin Q n := by
  induction d generalizing n with
  | done a => exact hf n a h
  | ask call next ih =>
    cases call with
    | store call =>
      cases call with
      | observe => exact fun sample => ih _ (h sample)
      | populate | churn | publish | unsubscribe | entries => cases h
    | await =>
      obtain ⟨hn, hobserves, hupdated, htimedOut⟩ := h
      exact ⟨hn, hobserves.bind f, ih _ hupdated, ih _ htimedOut⟩
    | changes | sleep | sleepUntil | moment | wallClock | stopwatch | log => exact fun a => ih _ (h a)

end Dialogue

namespace Reader

variable {origin n : Nat} {r : Reader}

theorem observes_look (left : Nat) (r : Reader) : (look left r).Observes := by
  unfold look
  trivial

theorem sees_look (left : Nat) (r : Reader) (n : Nat) : (look left r).Sees origin
    (fun n' x => x.1 = r ∧ ∃ sample, x.2 = .ok sample ∧ n' = max n (sample.elim 0 Sample.version)) n := by
  unfold look
  exact fun sample => ⟨rfl, sample, rfl, rfl⟩

theorem sees_tell (events : List Event) (n : Nat) :
    (tell events).Sees origin (fun n' _ => n' = n) n := by
  induction events with
  | nil => rfl
  | cons e rest ih => exact fun _ => ih

/-! ## Accounts -/

theorem lastVersion_account (r : Reader) (p : Sample) (time : Nat) :
    (r.account p time).1.lastVersion = max r.lastVersion p.version := by
  unfold account
  split
  case isTrue hle => exact (Nat.max_eq_left hle).symm
  case isFalse hlt =>
    have hmax : p.version = max r.lastVersion p.version := by omega
    split
    · exact hmax
    · simp only
      split <;> exact hmax

/-! ## Rounds -/

/-- How a round ends: the last version is what was seen, and setup goes on only as long as it has
to. -/
def Settled (setup : Bool) (n : Nat) : Round Reader → Prop
  | .again r => r.lastVersion = n ∧ (setup = true → n < r.settings.warmup)
  | .over r _ => r.lastVersion = n

theorem sees_endSetup (h : r.lastVersion = n) : r.endSetup.Sees origin (Settled true) n :=
  fun _ _ => h

theorem sees_drain (h : r.lastVersion = n) : r.drain.Sees origin (Settled true) n := by
  unfold drain
  split
  case isTrue => exact sees_endSetup h
  case isFalse =>
    refine (sees_look _ r n).bind ?_
    rintro n' ⟨r', _⟩ ⟨hr, sample, rfl, rfl⟩
    obtain rfl : r' = r := hr
    have hseen : (r'.drained sample).lastVersion = max n (sample.elim 0 Sample.version) := by
      rw [drained, h]
    show Dialogue.Sees origin (Settled true) _ (if _ then _ else _)
    split
    case isTrue => exact sees_endSetup hseen
    case isFalse hlt => exact ⟨hseen, fun _ => by omega⟩

theorem sees_openSetup (r : Reader) : r.openSetup.Sees origin (Settled true) r.lastVersion :=
  fun _ => sees_drain rfl

theorem sees_setupRound (h : r.lastVersion < r.settings.warmup) :
    r.setupRound.Sees r.lastVersion (Settled true) r.lastVersion := by
  refine ⟨rfl, ?_, sees_drain rfl, fun _ => sees_endSetup rfl⟩
  show r.drain.Observes
  rw [drain, if_neg (Nat.not_le.mpr h)]
  exact (observes_look _ r).bind _

theorem sees_openRun (r : Reader) : r.openRun.Sees origin (Settled false) r.lastVersion :=
  fun _ => ⟨rfl, nofun⟩

theorem sees_endRun (h : r.lastVersion = n) (result : Except Fault Unit) :
    (r.endRun result).Sees origin (Settled false) n :=
  fun _ _ => h

theorem sees_accounted {x : Reader × List Event × Bool} (h : x.1.lastVersion = n) :
    ((tell x.2.1).bind fun _ => if x.2.2 then x.1.endRun (.ok ()) else .done (.again x.1)).Sees origin
      (Settled false) n := by
  refine (sees_tell _ n).bind ?_
  rintro n' _ rfl
  split
  · exact sees_endRun h _
  · exact ⟨h, nofun⟩

theorem sees_watch (h : r.lastVersion = n) : r.watch.Sees origin (Settled false) n := by
  refine (sees_look _ r n).bind ?_
  rintro n' ⟨r', _⟩ ⟨hr, sample, rfl, rfl⟩
  obtain rfl : r' = r := hr
  cases sample with
  | none => exact ⟨h.trans (Nat.max_zero n).symm, nofun⟩
  | some p =>
    intro (time : Nat)
    have haccount : (r'.account p time).1.lastVersion = max n p.version := by
      rw [lastVersion_account, h]
    exact sees_accounted haccount

theorem sees_runRound (r : Reader) :
    r.runRound.Sees r.lastVersion (Settled false) r.lastVersion := by
  unfold runRound
  split
  · exact sees_endRun rfl _
  · exact ⟨rfl, (observes_look _ r).bind _, sees_watch rfl, fun _ => sees_endRun rfl _⟩

end Reader

end Lagmeter
