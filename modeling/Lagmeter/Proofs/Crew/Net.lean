import Lagmeter.Proofs.Crew.Progress
import Lagmeter.Proofs.Group.Correctness

/-!
# Networks as crews

The ranks of a network have links and no nodes. A network goes the way of the crew whose ranks say
the same.
-/

namespace Lagmeter.Net

variable {C : Carrier} {α : Type} {size : Nat} {n n' : Net C α}

def crew (n : Net C α) : Crew C α := .start n.carrier fun r => Seat.link (n.talk r)

theorem done_crew {r : Nat} {a : α} : n.crew.Done r a ↔ n.talk r = .done a := by
  show Doing.talking (Seat.link (n.talk r)) = _ ↔ _
  cases n.talk r with
  | done b => simp [Seat.link, Dialogue.lift]
  | ask call go => simp [Seat.link, Dialogue.lift]

theorem Step.crew (h : n.Step size n') (conduct : Nat → Conduct) :
    n.crew.Step size ∅ conduct n'.crew := by
  obtain ⟨r, hr, call, go, a, t', htalk, ha, rfl⟩ := h
  refine ⟨r, hr, Finset.notMem_empty r, t', _, .talk call (fun a => Seat.link (go a)) a t' ?_ ha, ?_⟩
  · exact congrArg (fun d => Doing.talking (Seat.link d)) htalk
  · simp only [Net.crew, Crew.start, Crew.put, Crew.mk.injEq, true_and]
    funext q
    by_cases hq : q = r
    · subst hq
      simp
    · simp [hq]

theorem Reaches.crew (h : n.Reaches size n') (conduct : Nat → Conduct) :
    n.crew.Reaches size ∅ conduct n'.crew := by
  induction h with
  | refl => exact .refl
  | tail _ hstep ih => exact ih.tail (hstep.crew conduct)

theorem step_of_crew {conduct : Nat → Conduct} {x : Crew C α}
    (h : n.crew.Step size ∅ conduct x) : ∃ n', n.Step size n' := by
  obtain ⟨r, hr, -, t', h', hact, rfl⟩ := h
  have hdoing : (n.crew.hand r).doing = .talking (Seat.link (n.talk r)) := rfl
  cases htalk : n.talk r with
  | done a =>
    rw [htalk] at hdoing
    cases hact with
    | talk _ _ _ _ hd _ => cases hd.symm.trans hdoing
    | begin _ _ _ hd _ => cases hd.symm.trans hdoing
    | finish _ _ _ hd _ => cases hd.symm.trans hdoing
  | ask call go =>
    rw [htalk] at hdoing
    cases hact with
    | talk _ _ a _ hd ha =>
      cases hd.symm.trans hdoing
      exact ⟨_, r, hr, call, go, a, t', htalk, ha, rfl⟩
    | begin _ _ _ hd ha =>
      cases hd.symm.trans hdoing
      cases ha
    | finish _ _ _ hd _ => cases hd.symm.trans hdoing

end Lagmeter.Net
