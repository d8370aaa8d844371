import Lagmeter.Proofs.Node.Rounds
import Mathlib.Data.List.Pairwise

/-!
# Calls in time

The calls of a node take time, and time goes by between them. No answer comes before its call, the clock
shows a moment in between, and a sleep may be too long but not too short.
-/

namespace Lagmeter

/-- What a call is to the pace of a writer. -/
inductive Beat where
  /-- Publishes a version, whether the store takes it or not. -/
  | attempt (version : Nat)
  | look (now : Nat)
  | nap (time : Span)
  | alarm (moment : Nat)
  | other
  deriving DecidableEq

namespace Beat

def version? : Beat → Option Nat
  | .attempt version => some version
  | _ => none

def shown? : Beat → Option Nat
  | .look now => some now
  | _ => none

def alarm? : Beat → Option Nat
  | .alarm moment => some moment
  | _ => none

theorem version?_eq_some {b : Beat} {v : Nat} : b.version? = some v ↔ b = .attempt v := by
  cases b <;> simp [version?]

end Beat

/-- A call with its answer, and the moments at which they came. -/
structure TimedCall where
  entry : (call : WorkCall) × call.Answer
  made : Nat
  answered : Nat

namespace TimedCall

def beatOf : ((call : WorkCall) × call.Answer) → Beat
  | ⟨.store (.publish p), _⟩ => .attempt p.version
  | ⟨.moment, (now : Nat)⟩ => .look now
  | ⟨.sleep time, _⟩ => .nap time
  | ⟨.sleepUntil moment, _⟩ => .alarm moment
  | _ => .other

def beat (x : TimedCall) : Beat := beatOf x.entry

/-- The answer has the time that it needs. -/
def Fits (x : TimedCall) : Prop :=
  x.made ≤ x.answered ∧ match x.beat with
    | .look now => x.made ≤ now ∧ now ≤ x.answered
    | .nap time => x.made + time.nanos ≤ x.answered
    | .alarm moment => moment ≤ x.answered
    | .attempt _ | .other => True

/-- Nothing takes time but the store and sleep, and an alarm goes off when it is due. -/
def Prompt (x : TimedCall) : Prop :=
  match x.beat with
  | .alarm moment => x.answered = max x.made moment
  | .look _ | .other => x.answered = x.made
  | .attempt _ | .nap _ => True

/-- The calls came one after the other. -/
structure Clocked (calls : List TimedCall) : Prop where
  fits : ∀ x ∈ calls, x.Fits
  ordered : calls.Pairwise fun x y => x.answered ≤ y.made

/-- From a moment on, all calls came at once after each other. -/
def PromptFrom : Nat → List TimedCall → Prop
  | _, [] => True
  | now, x :: rest => x.made = now ∧ x.Prompt ∧ PromptFrom x.answered rest

variable {x : TimedCall} {calls before after : List TimedCall} {now : Nat}

theorem Clocked.append (h : Clocked (before ++ after)) : Clocked before ∧ Clocked after ∧
    ∀ x ∈ before, ∀ y ∈ after, x.answered ≤ y.made := by
  obtain ⟨hbefore, hafter, hboth⟩ := List.pairwise_append.mp h.ordered
  refine ⟨⟨?_, hbefore⟩, ⟨?_, hafter⟩, hboth⟩
  · intro x hx
    exact h.fits x (List.mem_append_left _ hx)
  · intro x hx
    exact h.fits x (List.mem_append_right _ hx)

theorem Clocked.cons (h : Clocked (x :: calls)) :
    x.Fits ∧ Clocked calls ∧ ∀ y ∈ calls, x.answered ≤ y.made := by
  obtain ⟨hx, hcalls, hboth⟩ := Clocked.append (show Clocked ([x] ++ calls) from h)
  exact ⟨hx.fits x (by simp), hcalls, hboth x (by simp)⟩

theorem PromptFrom.append (h : PromptFrom now (before ++ after)) :
    PromptFrom now before ∧ ∃ later, PromptFrom later after := by
  induction before generalizing now with
  | nil => exact ⟨trivial, now, h⟩
  | cons x before ih => exact ⟨⟨h.1, h.2.1, (ih h.2.2).1⟩, (ih h.2.2).2⟩

/-! ## Timed runs -/

section

variable {α β : Type} {result : α}

theorem of_done {a : α} (h : (Dialogue.done a : Dialogue Work α).Run (calls.map entry) result) :
    calls = [] ∧ result = a := by
  generalize htrace : calls.map entry = trace at h
  cases h
  exact ⟨List.map_eq_nil_iff.mp htrace, rfl⟩

theorem of_call {call : WorkCall} {f : call.Answer → Dialogue Work α}
    (h : ((Dialogue.ask call .done).bind f : Dialogue Work α).Run (calls.map entry) result) :
    ∃ x a rest, calls = x :: rest ∧ x.entry = ⟨call, a⟩ ∧ (f a).Run (rest.map entry) result := by
  obtain ⟨a, rest, htrace, hrest⟩ := Dialogue.Run.of_call h
  obtain ⟨x, rest, rfl, hx, rfl⟩ := List.map_eq_cons_iff.mp htrace
  exact ⟨x, a, rest, rfl, hx, hrest⟩

theorem of_bind {d : Dialogue Work β} {f : β → Dialogue Work α}
    (h : (d.bind f).Run (calls.map entry) result) :
    ∃ before b after, calls = before ++ after ∧ d.Run (before.map entry) b ∧
      (f b).Run (after.map entry) result := by
  obtain ⟨_, b, _, hbefore, hafter, htrace⟩ := Dialogue.Run.of_bind h
  obtain ⟨before, after, rfl, rfl, rfl⟩ := List.map_eq_append_iff.mp htrace
  exact ⟨before, b, after, rfl, hbefore, hafter⟩

end

/-! ## A world with clocks -/

/-- When an answer comes, if the store takes its time for each version. -/
def due (lag : Nat → Nat) (now : Nat) : WorkCall → Nat
  | .store (.publish p) => now + lag p.version
  | .sleep time => now + time.nanos
  | .sleepUntil moment => max now moment
  | _ => now

def answerAt (now : Nat) : (call : WorkCall) → call.Answer
  | .moment => now
  | call => Work.steady ⟨0, 0⟩ 7 call

/-- Plays a dialogue in a world where nothing fails. -/
def play {α : Type} (lag : Nat → Nat) : Nat → Dialogue Work α → List TimedCall × α
  | _, .done a => ([], a)
  | now, .ask call next =>
    let (calls, a) := play lag (due lag now call) (next (answerAt now call))
    (⟨⟨call, answerAt now call⟩, now, due lag now call⟩ :: calls, a)

section

variable {α : Type} (lag : Nat → Nat) (d : Dialogue Work α)

theorem run_play (now : Nat) : d.Run ((play lag now d).1.map entry) (play lag now d).2 := by
  induction d generalizing now with
  | done a => exact .done a
  | ask call next ih => exact .ask call next _ (ih _ _)

theorem promptFrom_play (now : Nat) : PromptFrom now (play lag now d).1 := by
  induction d generalizing now with
  | done a => trivial
  | ask call next ih =>
    refine ⟨rfl, ?_, ih _ _⟩
    cases call with
    | store call => cases call <;> simp [Prompt, beat, beatOf, due]
    | _ => simp [Prompt, beat, beatOf, due]

theorem fits_due (now : Nat) (call : WorkCall) :
    TimedCall.Fits ⟨⟨call, answerAt now call⟩, now, due lag now call⟩ := by
  cases call with
  | store call =>
    cases call with
    | publish p => exact ⟨Nat.le_add_right .., trivial⟩
    | _ => exact ⟨Nat.le_refl now, trivial⟩
  | moment => exact ⟨Nat.le_refl now, Nat.le_refl now, Nat.le_refl now⟩
  | sleep time => exact ⟨Nat.le_add_right .., Nat.le_refl _⟩
  | sleepUntil moment => exact ⟨Nat.le_max_left .., Nat.le_max_right ..⟩
  | _ => exact ⟨Nat.le_refl now, trivial⟩

theorem clocked_play (now : Nat) :
    Clocked (play lag now d).1 ∧ ∀ x ∈ (play lag now d).1, now ≤ x.made := by
  induction d generalizing now with
  | done a => exact ⟨⟨by simp [play], by simp [play]⟩, by simp [play]⟩
  | ask call next ih =>
    obtain ⟨⟨hfits, hordered⟩, hafter⟩ := ih (answerAt now call) (due lag now call)
    have hfirst := fits_due lag now call
    refine ⟨⟨?_, ?_⟩, ?_⟩
    · intro x hx
      rcases List.mem_cons.mp hx with rfl | hx
      · exact hfirst
      · exact hfits x hx
    · exact List.pairwise_cons.mpr ⟨hafter, hordered⟩
    · intro x hx
      rcases List.mem_cons.mp hx with rfl | hx
      · exact Nat.le_refl now
      · exact Nat.le_trans hfirst.1 (hafter x hx)

end

end TimedCall

end Lagmeter
