import Lagmeter.Proofs.Group.Assembly
import Lagmeter.Proofs.Group.Request

/-!
# Programs

A program makes one request after the other, and what it asks for may depend on what it got before.
Its rank gives its link up right after the last one. The exchanges that a program comes to make a
plan, and to follow the plan is to follow the program.
-/

namespace Lagmeter

abbrev Requests : Interface := ⟨Request, fun _ => Except GroupError Yield⟩

abbrev Program (α : Type) := Dialogue Requests α

abbrev Silent : Interface := ⟨Empty, nofun⟩

variable {α : Type}

namespace Program

/-- The same requests whatever they give. -/
def ofList : List Request → Program (List (Except GroupError Yield))
  | [] => .done []
  | q :: rest => .ask q fun x => (ofList rest).bind fun xs => .done (x :: xs)

/-- All that a rank asks of its link after operation number `k`. -/
def talk (m : Member) : Program α → (k : Nat) → Dialogue Link α
  | .done a, _ => .ask LinkCall.leave fun _ => .done a
  | .ask q next, k => ((q.perform m).start k).bind fun x => talk m (next x.1) x.2

/-- The exchanges of a program. A request that is refused at once comes to none. -/
def plan (m : Member) {J : Interface} : Program α → Plan J α
  | .done a => .done a
  | .ask q next => match q.check m with
    | .error e => plan m (next (.error e))
    | .ok () => .ask (PlanCall.exchange (q.offer m)) fun x => plan m (next (x.bind (q.finish m)))

end Program

/-- All that a rank that follows a plan asks of its link after operation number `k`. -/
def Plan.talk (m : Member) : Plan Silent α → (k : Nat) → Dialogue Link α
  | .done a, _ => .ask LinkCall.leave fun _ => .done a
  | .ask (.exchange ρ) next, k => (ρ.dialogue m k).bind fun x => talk m (next x.1) x.2

theorem Program.talk_plan (m : Member) (p : Program α) (k : Nat) :
    Plan.talk m (p.plan m) k = p.talk m k := by
  induction p generalizing k with
  | done a => rfl
  | ask q next ih =>
    rw [Program.talk, q.reads_perform m k, Program.plan]
    cases q.check m with
    | error e => exact ih _ k
    | ok _ =>
      simp only [Plan.talk, Dialogue.bind_assoc, Dialogue.bind]
      exact congrArg (Dialogue.bind _) (funext fun x => ih _ _)

end Lagmeter
