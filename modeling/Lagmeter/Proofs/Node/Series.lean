import Lagmeter.Node.Writer
import Lagmeter.Proofs.Feed.Ledger
import Lagmeter.Proofs.Node.Rounds

/-!
# Series of submissions

A writer submits its versions one after the other. It submits a version again and again until the
store takes it, and gives up after a fixed number of refusals. What was taken, in which order and how
often, follows from that alone.
-/

namespace Lagmeter

/-- A sample that was submitted to the store, and whether the store took it. -/
structure Submission where
  sample : Sample
  taken : Bool
  deriving DecidableEq, Repr

namespace Submission

def version (s : Submission) : Nat := s.sample.version

/-- A refusal of a version. -/
def Refuses (s : Submission) (version : Nat) : Prop := s.version = version ∧ s.taken = false

instance (s : Submission) (version : Nat) : Decidable (s.Refuses version) :=
  inferInstanceAs (Decidable (_ ∧ _))

/-- A version comes after lower ones and after its own refusals. -/
def Precedes (s t : Submission) : Prop := s.version < t.version ∨ s.Refuses t.version

/-- The samples that were taken, the oldest first. -/
def takenOf (subs : List Submission) : List Sample := (subs.filter taken).map sample

theorem takenOf_append (before after : List Submission) :
    takenOf (before ++ after) = takenOf before ++ takenOf after := by
  rw [takenOf, List.filter_append, List.map_append]
  rfl

end Submission

open Submission

/-! ## Submissions of a trace -/

def submission? : ((call : WorkCall) × call.Answer) → Option Submission
  | ⟨.store (.publish p), (a : Except StoreError Unit)⟩ => some ⟨p, a.isOk⟩
  | _ => none

def submissions (trace : WorkTrace) : List Submission := trace.filterMap submission?

theorem submissions_append (before after : WorkTrace) :
    submissions (before ++ after) = submissions before ++ submissions after :=
  List.filterMap_append

/-! ## Series -/

/-- The submissions of so many versions from one on, and whether all of them were taken. -/
inductive Series : (count version : Nat) → List Submission → Bool → Prop where
  | done (version : Nat) : Series 0 version [] true
  | gaveUp {count version : Nat} {refused : List Submission}
      (hrefused : ∀ s ∈ refused, s.Refuses version) (hlength : refused.length = patience) :
    Series (count + 1) version refused false
  | took {count version time : Nat} {refused rest : List Submission} {whole : Bool}
      (hrefused : ∀ s ∈ refused, s.Refuses version) (hlength : refused.length < patience)
      (h : Series count (version + 1) rest whole) :
    Series (count + 1) version (refused ++ ⟨⟨version, time⟩, true⟩ :: rest) whole

namespace Series

variable {count version : Nat} {refused subs : List Submission} {whole : Bool}

theorem takenOf_refused (hrefused : ∀ s ∈ refused, s.Refuses version) : takenOf refused = [] := by
  rw [takenOf, List.filter_eq_nil_iff.mpr fun s hs => by simp [(hrefused s hs).2]]
  rfl

theorem range (h : Series count version subs whole) :
    ∀ s ∈ subs, version ≤ s.version ∧ s.version < version + count := by
  induction h with
  | done => exact nofun
  | gaveUp hrefused =>
    intro s hs
    have hversion := (hrefused s hs).1
    omega
  | took hrefused _ _ ih =>
    intro s hs
    rcases List.mem_append.mp hs with hs | hs
    · have hversion := (hrefused s hs).1
      omega
    · rcases List.mem_cons.mp hs with rfl | hs
      · simp only [Submission.version]
        omega
      · have hrest := ih s hs
        omega

/-- A prefix of the versions is taken, which is all of them if the series is whole. -/
theorem versions (h : Series count version subs whole) : ∃ k ≤ count,
    (takenOf subs).map Sample.version = List.range' version k ∧ (whole = true ↔ k = count) := by
  induction h with
  | done => exact ⟨0, Nat.le_refl _, rfl, iff_of_true rfl rfl⟩
  | gaveUp hrefused =>
    rw [takenOf_refused hrefused]
    exact ⟨0, Nat.zero_le _, rfl, iff_of_false Bool.false_ne_true (Nat.succ_ne_zero _).symm⟩
  | took hrefused _ _ ih =>
    obtain ⟨k, hk, htaken, hwhole⟩ := ih
    refine ⟨k + 1, Nat.succ_le_succ hk, ?_, hwhole.trans Nat.succ_inj.symm⟩
    rw [takenOf_append, takenOf_refused hrefused, List.range'_succ, ← htaken]
    rfl

end Series

/-! ## Parts -/

/-- What a phase may submit of its series, which is nothing if the phase ends before. -/
def Part (count version : Nat) (subs : List Submission) : Prop :=
  subs = [] ∨ ∃ whole, Series count version subs whole

namespace Part

variable {count version : Nat} {subs : List Submission}

theorem range (h : Part count version subs) :
    ∀ s ∈ subs, version ≤ s.version ∧ s.version < version + count := by
  rcases h with rfl | ⟨whole, h⟩
  · exact nofun
  · exact h.range

theorem versions (h : Part count version subs) :
    ∃ k ≤ count, (takenOf subs).map Sample.version = List.range' version k := by
  rcases h with rfl | ⟨whole, h⟩
  · exact ⟨0, Nat.zero_le _, rfl⟩
  · obtain ⟨k, hk, htaken, -⟩ := h.versions
    exact ⟨k, hk, htaken⟩

end Part

/-! ## Stretches -/

/-- What a phase submits of its series, and whether it succeeds. A plan without any writes in an
interval is refused. -/
def Stretch (plan : WriterSettings) (count version : Nat) (subs : List Submission) (ok : Bool) : Prop :=
  plan.perInterval = 0 ∧ subs = [] ∧ ok = false ∨
    plan.perInterval ≠ 0 ∧ Series count version subs ok

namespace Stretch

variable {plan : WriterSettings} {count version : Nat} {subs : List Submission} {ok : Bool}

theorem part (h : Stretch plan count version subs ok) : Part count version subs := by
  rcases h with ⟨-, hnone, -⟩ | ⟨-, hseries⟩
  · exact .inl hnone
  · exact .inr ⟨ok, hseries⟩

end Stretch

end Lagmeter
