import Lagmeter.Proofs.Feed.Reading
import Lagmeter.Proofs.Node.Rounds

/-!
# Sightings of a reader

A reader sights a sample when a read of its structure shows one. Reads that fail, changes that it
waits for and what it tells its log are no sightings. So a round of a run makes at most one, and what
it counts depends on that sighting alone.
-/

namespace Lagmeter

/-- A sample that a reader observed, and when. -/
structure Sighting where
  sample : Sample
  seen : Nat
  deriving DecidableEq, Repr

namespace Sighting

def version (s : Sighting) : Nat := s.sample.version

/-- The sightings of a version above a bound and above all versions before it. -/
def newest (bound : Nat) : List Sighting → List Sighting
  | [] => []
  | s :: rest => if bound < s.version then s :: newest s.version rest else newest bound rest

/-- The highest version that was sighted, or the bound. -/
def highest (bound : Nat) (seen : List Sighting) : Nat := (seen.map version).foldl max bound

/-- The newest sightings that were not made before the sample was written. -/
def accepted (bound : Nat) (seen : List Sighting) : List Sighting :=
  (newest bound seen).filter fun s => s.sample.writtenAt ≤ s.seen

variable {bound : Nat} {seen : List Sighting}

theorem highest_concat (bound : Nat) (seen : List Sighting) (s : Sighting) :
    highest bound (seen ++ [s]) = max (highest bound seen) s.version := by
  simp [highest]

theorem le_highest (bound : Nat) (seen : List Sighting) : bound ≤ highest bound seen := by
  induction seen generalizing bound with
  | nil => exact Nat.le_refl _
  | cons s rest ih => exact Nat.le_trans (Nat.le_max_left ..) (ih _)

theorem newest_concat (bound : Nat) (seen : List Sighting) (s : Sighting) :
    newest bound (seen ++ [s]) =
      newest bound seen ++ (if highest bound seen < s.version then [s] else []) := by
  induction seen generalizing bound with
  | nil => rfl
  | cons t rest ih =>
    have hhighest : highest bound (t :: rest) = highest (max bound t.version) rest := rfl
    rw [List.cons_append, newest, newest, hhighest]
    split
    case isTrue hnew => rw [ih, Nat.max_eq_right (Nat.le_of_lt hnew), List.cons_append]
    case isFalse hold => rw [ih, Nat.max_eq_left (Nat.le_of_not_lt hold)]

theorem version_of_mem_newest {s : Sighting} (h : s ∈ newest bound seen) :
    bound < s.version ∧ s.version ≤ highest bound seen := by
  induction seen generalizing bound with
  | nil => cases h
  | cons t rest ih =>
    have hhighest : highest bound (t :: rest) = highest (max bound t.version) rest := rfl
    rw [newest] at h
    rw [hhighest]
    split at h
    case isTrue hnew =>
      rw [Nat.max_eq_right (Nat.le_of_lt hnew)]
      rcases List.mem_cons.mp h with rfl | hmem
      · exact ⟨hnew, le_highest ..⟩
      · exact ⟨Nat.lt_trans hnew (ih hmem).1, (ih hmem).2⟩
    case isFalse hold =>
      rw [Nat.max_eq_left (Nat.le_of_not_lt hold)]
      exact ih h

theorem pairwise_newest (bound : Nat) (seen : List Sighting) :
    (newest bound seen).Pairwise fun s t => s.version < t.version := by
  induction seen generalizing bound with
  | nil => exact .nil
  | cons s rest ih =>
    rw [newest]
    split
    case isTrue => exact .cons (fun t ht => (version_of_mem_newest ht).1) (ih _)
    case isFalse => exact ih _

end Sighting

namespace Reader

open Sighting

/-! ## Sightings of a run -/

/-- What a reader observed in some calls, and what the clock showed right after. -/
def sightings : WorkTrace → List Sighting
  | ⟨.store .observe, (.ok (some p) : Except StoreError (Option Sample))⟩ :: ⟨.wallClock, (time : Nat)⟩ :: rest =>
    ⟨p, time⟩ :: sightings rest
  | _ :: rest => sightings rest
  | [] => []

/-- A reader without what does not count versions. -/
def bare (r : Reader) : Reader :=
  { r with repeats := 0, failedReads := 0, timedOut := false, warmup := {}, measure := {} }

variable {r r' : Reader} {trace : WorkTrace} {x : Round Reader}

theorem bare_account (r : Reader) (p : Sample) (seen : Nat) :
    (r.account p seen).1.bare = (r.bare.account p seen).1.bare := by
  have hlast : r.bare.lastVersion = r.lastVersion := rfl
  have hsettings : r.bare.settings = r.settings := rfl
  unfold account
  rw [hlast, hsettings]
  split
  case isTrue => rfl
  case isFalse =>
    split
    case isTrue => rfl
    case isFalse => split <;> rfl

/-! ## Rounds -/

/-- The last read of a look, if it succeeded. -/
def lastRead : Except Fault (Option Sample) → WorkTrace
  | .ok sample => [⟨.store .observe, (.ok sample : Except StoreError (Option Sample))⟩]
  | .error _ => []

theorem run_look {left : Nat} {found : Except Fault (Option Sample)}
    (h : (look left r).Run trace (r', found)) :
    r'.bare = r.bare ∧ ∀ rest, sightings (trace ++ rest) = sightings (lastRead found ++ rest) := by
  induction left generalizing r trace with
  | zero =>
    unfold look at h
    obtain ⟨answer, rest, rfl, hanswer⟩ := Dialogue.Run.of_call h
    cases answer with
    | ok sample =>
      cases hanswer
      exact ⟨rfl, fun _ => rfl⟩
    | error e =>
      cases hanswer
      exact ⟨rfl, fun _ => rfl⟩
  | succ left ih =>
    unfold look at h
    obtain ⟨answer, rest, rfl, hanswer⟩ := Dialogue.Run.of_call h
    cases answer with
    | ok sample =>
      cases hanswer
      exact ⟨rfl, fun _ => rfl⟩
    | error e =>
      obtain ⟨_, rest, rfl, hlogged⟩ := Dialogue.Run.of_call hanswer
      obtain ⟨_, rest, rfl, hslept⟩ := Dialogue.Run.of_call hlogged
      obtain ⟨hbare, hsightings⟩ := ih hslept
      exact ⟨hbare, hsightings⟩

theorem run_endRun {result : Except Fault Unit} (h : (r.endRun result).Run trace x) :
    sightings trace = [] ∧ x.state.bare = r.bare := by
  obtain ⟨time, rest, rfl, htime⟩ := Dialogue.Run.of_call h
  obtain ⟨_, rest, rfl, hlogged⟩ := Dialogue.Run.of_call htime
  cases hlogged
  exact ⟨rfl, rfl⟩

theorem run_tell {events : List Event} {u : Unit} (h : (tell events).Run trace u) (rest : WorkTrace) :
    sightings (trace ++ rest) = sightings rest := by
  induction events generalizing trace with
  | nil =>
    cases h
    rfl
  | cons e events ih =>
    obtain ⟨_, more, rfl, hlogged⟩ := Dialogue.Run.of_call h
    have hrest := ih hlogged
    exact hrest

theorem run_close {events : List Event} {finished : Bool}
    (h : ((tell events).bind fun _ => if finished then r.endRun (.ok ()) else .done (.again r)).Run
      trace x) : sightings trace = [] ∧ x.state.bare = r.bare := by
  obtain ⟨told, u, rest, htold, hrest, rfl⟩ := Dialogue.Run.of_bind h
  rw [run_tell htold]
  cases finished with
  | true => exact run_endRun hrest
  | false =>
    cases hrest
    exact ⟨rfl, rfl⟩

/-- A look at the structure makes at most one sighting, and accounts for it. -/
theorem run_watch (h : r.watch.Run trace x) : sightings trace = [] ∧ x.state.bare = r.bare ∨
    ∃ s, sightings trace = [s] ∧ x.state.bare = (r.account s.sample s.seen).1.bare := by
  obtain ⟨before, ⟨r', found⟩, after, hlook, hafter, rfl⟩ := Dialogue.Run.of_bind h
  obtain ⟨hbare, hsightings⟩ := run_look hlook
  rw [hsightings after]
  cases found with
  | error e =>
    obtain ⟨hnone, hend⟩ := run_endRun hafter
    exact .inl ⟨hnone, hend.trans hbare⟩
  | ok sample =>
    cases sample with
    | none =>
      cases hafter
      exact .inl ⟨rfl, hbare⟩
    | some p =>
      obtain ⟨(time : Nat), rest, rfl, htime⟩ := Dialogue.Run.of_call hafter
      obtain ⟨hnone, hend⟩ : sightings rest = [] ∧ x.state.bare = (r'.account p time).1.bare :=
        run_close htime
      have haccount : (r'.account p time).1.bare = (r.account p time).1.bare := by
        rw [bare_account, hbare, ← bare_account]
      exact .inr ⟨⟨p, time⟩, congrArg (List.cons (Sighting.mk p time)) hnone,
        hend.trans haccount⟩

theorem run_runRound (h : r.runRound.Run trace x) : sightings trace = [] ∧ x.state.bare = r.bare ∨
    ∃ s, sightings trace = [s] ∧ r.latencies.length < r.settings.writes ∧
      x.state.bare = (r.account s.sample s.seen).1.bare := by
  unfold runRound at h
  split at h
  case isTrue => exact .inl (run_endRun h)
  case isFalse hroom =>
    obtain ⟨outcome, rest, rfl, houtcome⟩ := Dialogue.Run.of_call h
    cases outcome with
    | timedOut =>
      obtain ⟨_, rest, rfl, hlogged⟩ := Dialogue.Run.of_call houtcome
      obtain ⟨hnone, hend⟩ := run_endRun hlogged
      exact .inl ⟨hnone, hend⟩
    | updated =>
      obtain ⟨hnone, hsame⟩ | ⟨s, hone, hsame⟩ := run_watch houtcome
      · exact .inl ⟨hnone, hsame⟩
      · exact .inr ⟨s, hone, Nat.lt_of_not_le hroom, hsame⟩

end Reader

end Lagmeter
