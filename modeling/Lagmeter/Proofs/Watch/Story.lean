import Lagmeter.Watcher
import Mathlib.Data.List.Basic
import Mathlib.Data.List.Induction

/-!
# Stories of a watcher

What happens to a watcher is told as a list of incidents: threads record changes, waits begin, and the
waiter looks for a change until it finds one or its time is over. A story is credible if each look
finds a change just in case one was recorded since the last look. Everything about lost and repeated
news follows from that.
-/

namespace Lagmeter

inductive Incident where
  /-- A thread has recorded a change. -/
  | changed (thread : Nat)
  /-- A wait has begun. No time at all means to wait without end. -/
  | began (timeout : Nat)
  /-- The waiter has looked, and found nothing. -/
  | missed
  /-- The waiter has looked, and found a change, which ends its wait. -/
  | updated
  /-- The waiter has looked after its time was over, and found nothing, which ends its wait. -/
  | timedOut
  deriving DecidableEq, Repr

namespace Incident

def isChange : Incident → Bool
  | .changed _ => true
  | _ => false

def isLook : Incident → Bool
  | .missed | .updated | .timedOut => true
  | _ => false

end Incident

namespace Story

/-! ## What a story comes to -/

/-- Whether a change is pending after an incident. -/
def latch (pending : Bool) : Incident → Bool
  | .changed _ => true
  | .missed | .updated | .timedOut => false
  | .began _ => pending

def pending (story : List Incident) : Bool := story.foldl latch false

/-- The timeout of the wait that is on its way after an incident. -/
def hold (wait : Option Nat) : Incident → Option Nat
  | .began timeout => some timeout
  | .updated | .timedOut => none
  | .changed _ | .missed => wait

def wait? (story : List Incident) : Option Nat := story.foldl hold none

@[simp] theorem pending_concat (story : List Incident) (d : Incident) :
    pending (story ++ [d]) = latch (pending story) d := by
  simp [pending]

@[simp] theorem wait?_concat (story : List Incident) (d : Incident) :
    wait? (story ++ [d]) = hold (wait? story) d := by
  simp [wait?]

theorem pending_append_of_unseen {before after : List Incident} (h : pending before = true)
    (hunseen : ∀ d ∈ after, d.isLook = false) : pending (before ++ after) = true := by
  induction after using List.reverseRecOn with
  | nil => simpa using h
  | append_singleton after d ih =>
    have hafter := ih fun e he => hunseen e (List.mem_append_left _ he)
    have hd := hunseen d (by simp)
    rw [← List.append_assoc, pending_concat, hafter]
    cases d <;> simp_all [latch, Incident.isLook]

theorem exists_change_of_pending {before after : List Incident} (h : pending before = false)
    (hafter : pending (before ++ after) = true) : ∃ i, .changed i ∈ after := by
  induction after using List.reverseRecOn with
  | nil => simp [h] at hafter
  | append_singleton after d ih =>
    rw [← List.append_assoc, pending_concat] at hafter
    cases d with
    | changed i => exact ⟨i, by simp⟩
    | began =>
      obtain ⟨i, hi⟩ := ih hafter
      exact ⟨i, List.mem_append_left _ hi⟩
    | missed | updated | timedOut => cases hafter

/-! ## Credible stories -/

/-- What may come next in a story. -/
def Follows (story : List Incident) : Incident → Prop
  | .changed _ => True
  | .began _ => wait? story = none
  | .missed => wait? story ≠ none ∧ pending story = false
  | .updated => wait? story ≠ none ∧ pending story = true
  | .timedOut => wait? story ≠ none ∧ wait? story ≠ some 0 ∧ pending story = false

/-- Each incident follows from those before it. -/
def Credible (story : List Incident) : Prop :=
  ∀ before d after, story = before ++ d :: after → Follows before d

theorem credible_nil : Credible [] := by
  intro before d after h
  simp at h

variable {story before mid after : List Incident} {d : Incident}

theorem Credible.concat (h : Credible story) (hd : Follows story d) : Credible (story ++ [d]) := by
  intro before e after heq
  rcases List.eq_nil_or_concat after with rfl | ⟨after, f, rfl⟩
  · obtain ⟨rfl, rfl⟩ : story = before ∧ d = e := by simpa using heq
    exact hd
  · rw [List.concat_eq_append, ← List.cons_append, ← List.append_assoc] at heq
    obtain ⟨rfl, -⟩ := List.append_inj' heq rfl
    exact h before e after rfl

theorem Credible.of_concat (h : Credible (story ++ [d])) : Credible story := by
  intro before e after heq
  apply h before e (after ++ [d])
  simp [heq]

theorem Credible.count_updated_le (h : Credible story) :
    story.count .updated + (pending story).toNat ≤ story.countP Incident.isChange := by
  induction story using List.reverseRecOn with
  | nil => simp [pending]
  | append_singleton story d ih =>
    have hstory := ih h.of_concat
    have hd : Follows story d := h story d [] rfl
    rw [List.count_append, List.countP_append, pending_concat]
    cases d with
    | changed i =>
      have := Bool.toNat_le (pending story)
      simp [latch, Incident.isChange]
      omega
    | began => simpa [latch, Incident.isChange] using hstory
    | missed | timedOut =>
      simp [latch, Incident.isChange]
      omega
    | updated =>
      rw [hd.2] at hstory
      simpa [latch, Incident.isChange] using hstory

/-- Between two times that news was found, a change was recorded. -/
theorem Credible.exists_change
    (h : Credible (before ++ .updated :: (mid ++ .updated :: after))) :
    ∃ i, .changed i ∈ mid := by
  have hagain : Follows (before ++ .updated :: mid) .updated := h _ _ after (by simp)
  have hclear : pending (before ++ [.updated]) = false := by simp [latch]
  apply exists_change_of_pending hclear
  simpa using hagain.2

theorem Credible.updated_of_look {i : Nat}
    (h : Credible (before ++ .changed i :: (mid ++ d :: after)))
    (hmid : ∀ e ∈ mid, e.isLook = false) (hd : d.isLook = true) : d = .updated := by
  have hlook : Follows (before ++ .changed i :: mid) d := h _ _ after (by simp)
  have hpending : pending (before ++ [.changed i] ++ mid) = true :=
    pending_append_of_unseen (by simp [latch]) hmid
  rw [List.append_assoc, List.singleton_append] at hpending
  cases d with
  | updated => rfl
  | missed | timedOut => simp [Follows, hpending] at hlook
  | changed | began => cases hd

theorem pending_of_change {i : Nat} (hafter : ∀ e ∈ after, e.isLook = false) :
    pending (before ++ .changed i :: after) = true := by
  have hpending : pending (before ++ [.changed i] ++ after) = true :=
    pending_append_of_unseen (by simp [latch]) hafter
  simpa using hpending

end Story

end Lagmeter
