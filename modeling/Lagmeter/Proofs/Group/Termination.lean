import Lagmeter.Proofs.Group.Assembly
import Mathlib.Data.DFinsupp.WellFounded

/-!
# Every run ends

A plan is finite, and so is every exchange. A rank passes from stage to stage and never comes back,
so that no order of steps goes on for ever, whatever the carrier answers.
-/

namespace Lagmeter

variable {C : Carrier} {J : Interface} {α : Type}

/-- If no rank can go on for ever, no order of their steps does. -/
theorem wellFounded_schedule {β : Type} {R : β → β → Prop} (size : Nat) (hR : WellFounded R) :
    WellFounded fun f' f : Nat → β => ∃ r < size, R (f' r) (f r) ∧ ∀ q ≠ r, f' q = f q := by
  -- The ranks as a tuple in lexicographic order: the one that steps comes down, no other moves.
  have hwf : WellFounded (Pi.Lex (fun a b : Fin size => a < b) fun {_} => R) :=
    Pi.Lex.wellFounded _ fun _ => hR
  refine Subrelation.wf ?_ (InvImage.wf (fun (f : Nat → β) (q : Fin size) => f q) hwf)
  rintro f' f ⟨r, hr, hstep, hothers⟩
  exact ⟨⟨r, hr⟩, fun q hq => hothers q (Nat.ne_of_lt hq), hstep⟩

/-- Where steps come to an end and can be taken as long as `P` does not hold, some run leads to where `P`
holds. -/
theorem exists_end_of_wellFounded {σ : Type*} {step : σ → σ → Prop}
    (hwf : WellFounded fun x' x => step x x') {P : σ → Prop} (x : σ)
    (h : ∀ x', Relation.ReflTransGen step x x' → (∃ x'', step x' x'') ∨ P x') :
    ∃ x', Relation.ReflTransGen step x x' ∧ P x' := by
  induction x using hwf.induction with
  | _ x ih =>
  rcases h x .refl with ⟨x', hstep⟩ | hP
  · obtain ⟨x'', hreaches, hP⟩ := ih x' hstep fun y hy => h y (.head hstep hy)
    exact ⟨x'', .head hstep hreaches, hP⟩
  · exact ⟨x, .refl, hP⟩

/-! ## Stages -/

/-- Stage `x` can come right after stage `y`. -/
inductive Stage.Follows : Stage J α → Stage J α → Prop where
  | enter (ρ : Offer) (talk : Dialogue Link (Except GroupError Payload × Nat))
      (next : Except GroupError Payload → Plan J α) :
    Follows (.busy ρ talk next) (.free (.ask (PlanCall.exchange ρ) next))
  | talk (ρ : Offer) (call : LinkCall)
      (go : call.Answer → Dialogue Link (Except GroupError Payload × Nat))
      (next : Except GroupError Payload → Plan J α) (a : call.Answer) :
    Follows (.busy ρ (go a) next) (.busy ρ (.ask call go) next)
  | conclude (ρ : Offer) (x : Except GroupError Payload × Nat)
      (next : Except GroupError Payload → Plan J α) :
    Follows (.free (next x.1)) (.busy ρ (.done x) next)
  | other (call : J.Call) (next : J.Answer call → Plan J α) (a : J.Answer call) :
    Follows (.free (next a)) (.free (.ask (PlanCall.other call) next))
  | leave (a : α) : Follows (.gone (some a)) (.free (.done a))

namespace Stage

theorem acc_gone (result : Option α) : Acc (Follows (J := J)) (.gone result) :=
  ⟨_, nofun⟩

theorem acc_busy {ρ : Offer} {next : Except GroupError Payload → Plan J α}
    (hnext : ∀ result, Acc Follows (.free (next result)))
    (talk : Dialogue Link (Except GroupError Payload × Nat)) :
    Acc Follows (.busy ρ talk next) := by
  induction talk with
  | done x =>
    constructor
    intro y hy
    cases hy
    exact hnext x.1
  | ask call go ih =>
    constructor
    intro y hy
    cases hy with
    | talk _ _ _ _ a => exact ih a

theorem acc_free (plan : Plan J α) : Acc Follows (.free plan) := by
  induction plan with
  | done a =>
    constructor
    intro y hy
    cases hy
    exact acc_gone _
  | ask call next ih =>
    constructor
    intro y hy
    cases hy with
    | enter ρ talk _ => exact acc_busy ih talk
    | other call _ a => exact ih a

theorem wellFounded_follows : WellFounded (Follows (J := J) (α := α)) := by
  constructor
  intro x
  cases x with
  | free plan => exact acc_free plan
  | busy ρ talk next => exact acc_busy (fun result => acc_free (next result)) talk
  | gone result => exact acc_gone result

end Stage

namespace Assembly

variable {g : Roster}

theorem Act.follows {r : Nat} {t t' : C.State} {x x' : Rank J α} (h : Act g r t x t' x') :
    x'.stage.Follows x.stage := by
  cases h with
  | enter ρ next h => exact h ▸ .enter ρ _ next
  | talk ρ call go next a _ h _ => exact h ▸ .talk ρ call go next a
  | conclude ρ result sequence next h => exact h ▸ .conclude ρ (result, sequence) next
  | other call next a h => exact h ▸ .other call next a
  | leave a _ h _ => exact h ▸ .leave a

theorem wellFounded_advance : WellFounded fun s' s : Assembly C J α => Advance g s s' := by
  refine Subrelation.wf ?_ (InvImage.wf (fun (s : Assembly C J α) q => (s.rank q).stage)
    (wellFounded_schedule g.size Stage.wellFounded_follows))
  rintro s' s ⟨r, hr, t', x', hact, rfl⟩
  refine ⟨r, hr, ?_, fun q hq => ?_⟩
  · simpa using hact.follows
  · simp only [put_rank_ne hq]

end Assembly

end Lagmeter
