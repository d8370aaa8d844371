import Lagmeter.Node.Work
import Lagmeter.Proofs.Exchange.Answering

/-!
# Rounds of a phase

A node answers for what it does whatever its store, its watcher and its clocks say. So a phase is
looked at together with the calls of each of its rounds and the answers that they got, which may be
any answers at all.
-/

namespace Lagmeter

/-- The calls of a node in their order, each with its answer. -/
abbrev WorkTrace := List ((call : WorkCall) × call.Answer)

namespace Dialogue

variable {I : Interface} {α : Type} {trace : List ((call : I.Call) × I.Answer call)} {result : α}

theorem Run.of_call {call : I.Call} {f : I.Answer call → Dialogue I α}
    (h : ((Dialogue.ask call .done).bind f).Run trace result) :
    ∃ a rest, trace = ⟨call, a⟩ :: rest ∧ (f a).Run rest result := by
  cases h with
  | ask _ _ a h => exact ⟨a, _, rfl, h⟩

theorem run_of_play {d : Dialogue I α} {behave : (call : I.Call) → I.Answer call}
    (h : (d.play behave).2 = result) : d.Run (d.play behave).1 result :=
  h ▸ run_play behave d

end Dialogue

/-- Surroundings in which every call succeeds. The structure shows one sample and the clock one time. -/
def Work.steady (p : Sample) (time : Nat) : (call : WorkCall) → call.Answer
  | .store (.populate _) | .store (.churn _) => (.ok 0 : Except StoreError Nat)
  | .store (.publish _) => (.ok () : Except StoreError Unit)
  | .store .observe => (.ok (some p) : Except StoreError (Option Sample))
  | .store (.unsubscribe _) => true
  | .store .entries => (0 : Nat)
  | .await _ => WaitOutcome.updated
  | .changes | .moment | .stopwatch => (0 : Nat)
  | .wallClock => time
  | .sleep _ | .sleepUntil _ | .log _ => ()

/-- The first rounds of a phase of a node, with the calls of each, and how the last of them ended. -/
inductive Rounds {σ : Type} (first next : σ → Dialogue Work (Round σ)) (s : σ) :
    List WorkTrace → Round σ → Prop where
  | opened {trace : WorkTrace} {x : Round σ} (h : (first s).Run trace x) : Rounds first next s [trace] x
  | further {traces : List WorkTrace} {trace : WorkTrace} {s' : σ} {x : Round σ}
      (h : Rounds first next s traces (.again s')) (hrun : (next s').Run trace x) :
    Rounds first next s (traces ++ [trace]) x

/-- What the first round establishes and each further one keeps holds of all rounds. -/
theorem Rounds.keeps {σ : Type} {first next : σ → Dialogue Work (Round σ)} {s : σ}
    {P : List WorkTrace → Round σ → Prop} {traces : List WorkTrace} {x : Round σ}
    (h : Rounds first next s traces x) (hfirst : ∀ trace x, (first s).Run trace x → P [trace] x)
    (hnext : ∀ traces s' trace x, P traces (.again s') → (next s').Run trace x →
      P (traces ++ [trace]) x) : P traces x := by
  induction h with
  | opened h => exact hfirst _ _ h
  | further _ hrun ih => exact hnext _ _ _ _ ih hrun

end Lagmeter
