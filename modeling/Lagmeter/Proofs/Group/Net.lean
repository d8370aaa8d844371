import Lagmeter.Proofs.Group.Progress
import Lagmeter.Proofs.Group.Program
import Lagmeter.Proofs.Group.Termination

/-!
# Networks

In a network every rank follows a dialogue with its link, and nothing else is known of it. A network
whose ranks follow plans goes the way of an assembly, which also tells the exchanges apart.
-/

namespace Lagmeter

/-- What joins the ranks, and what is left of the dialogue of each. -/
structure Net (C : Carrier) (α : Type) where
  carrier : C.State
  talk : Nat → Dialogue Link α

namespace Net

variable {C : Carrier} {α : Type} {size : Nat} {n n' : Net C α}

def Step (size : Nat) (n n' : Net C α) : Prop :=
  ∃ r < size, ∃ (call : LinkCall) (go : call.Answer → Dialogue Link α) (a : call.Answer)
    (t' : C.State), n.talk r = .ask call go ∧ C.Answers n.carrier r call a t' ∧
      n' = ⟨t', Function.update n.talk r (go a)⟩

def Reaches (size : Nat) : Net C α → Net C α → Prop := Relation.ReflTransGen (Step size)

/-! ## Every run ends -/

/-- The dialogue `d` can come right after `e`. -/
def Follows (d e : Dialogue Link α) : Prop :=
  ∃ (call : LinkCall) (go : call.Answer → Dialogue Link α) (a : call.Answer),
    e = .ask call go ∧ d = go a

theorem wellFounded_follows : WellFounded (Follows (α := α)) := by
  constructor
  intro d
  induction d with
  | done a =>
    constructor
    rintro y ⟨_, _, _, h, -⟩
    cases h
  | ask call go ih =>
    constructor
    rintro y ⟨_, _, a, h, rfl⟩
    cases h
    exact ih a

theorem wellFounded_step : WellFounded fun n' n : Net C α => Step size n n' := by
  refine Subrelation.wf ?_ (InvImage.wf (fun (n : Net C α) => n.talk)
    (wellFounded_schedule size wellFounded_follows))
  rintro n' n ⟨r, hr, call, go, a, t', htalk, -, rfl⟩
  refine ⟨r, hr, ⟨call, go, a, htalk, ?_⟩, fun q hq => ?_⟩
  · simp only [Function.update_self]
  · simp only [Function.update_of_ne hq]

end Net

/-! ## Networks and assemblies -/

variable {C : Carrier} {α : Type} {g : Roster} {base : Nat}

/-- What a rank at its stage still has to say. -/
def Rank.Speaks (m : Member) (x : Rank Silent α) (d : Dialogue Link α) : Prop :=
  match x.stage with
  | .free plan => d = plan.talk m x.sequence
  | .busy _ talk next => d = talk.bind fun y => Plan.talk m (next y.1) y.2
  | .gone result => ∃ a, result = some a ∧ d = .done a

/-- The ranks of the network say what those of the assembly have to say. -/
def Assembly.Mirrors (g : Roster) (s : Assembly C Silent α) (n : Net C α) : Prop :=
  n.carrier = s.carrier ∧ ∀ r < g.size, (s.rank r).Speaks (g.member r) (n.talk r)

namespace Assembly

variable {s s' : Assembly C Silent α} {n n' : Net C α} {r : Nat}

theorem Mirrors.put (h : s.Mirrors g n) {t' : C.State} {x' : Rank Silent α} {d : Dialogue Link α}
    (hx : x'.Speaks (g.member r) d) :
    (s.put r t' x').Mirrors g ⟨t', Function.update n.talk r d⟩ := by
  refine ⟨rfl, fun q hq => ?_⟩
  by_cases hqr : q = r
  · subst hqr
    simpa using hx
  · simpa only [put_rank_ne hqr, Function.update_of_ne hqr] using h.2 q hq

theorem Mirrors.quiet (h : s.Mirrors g n) {x' : Rank Silent α}
    (hx : x'.Speaks (g.member r) (n.talk r)) : (s.put r s.carrier x').Mirrors g n := by
  have hput : (s.put r s.carrier x').Mirrors g ⟨s.carrier, _⟩ := h.put hx
  rw [Function.update_eq_self, ← h.1] at hput
  rwa [← h.1]

theorem Mirrors.advance (h : s.Mirrors g n) (hstep : Advance g s s') :
    s'.Mirrors g n ∨ ∃ n', n.Step g.size n' ∧ s'.Mirrors g n' := by
  obtain ⟨r, hr, t', x', hact, rfl⟩ := hstep
  have hspeaks := h.2 r hr
  unfold Rank.Speaks at hspeaks
  cases hact with
  | enter ρ next hstage =>
    rw [hstage] at hspeaks
    exact .inl (h.quiet hspeaks)
  | talk ρ call go next a _ hstage ha =>
    rw [hstage] at hspeaks
    rw [← h.1] at ha
    exact .inr ⟨_, ⟨r, hr, call, _, a, t', hspeaks, ha, rfl⟩, h.put rfl⟩
  | conclude ρ result sequence next hstage =>
    rw [hstage] at hspeaks
    exact .inl (h.quiet hspeaks)
  | other call next a hstage => exact call.elim
  | leave a _ hstage ha =>
    rw [hstage] at hspeaks
    rw [← h.1] at ha
    exact .inr ⟨_, ⟨r, hr, .leave, _, (), t', hspeaks, ha, rfl⟩, h.put ⟨a, rfl, rfl⟩⟩

/-- A call of the network is a step of the assembly, after some that the network cannot see. -/
theorem Mirrors.step (h : s.Mirrors g n) (hstep : n.Step g.size n') :
    ∃ s', Reaches g s s' ∧ s'.Mirrors g n' := by
  obtain ⟨r, hr, call, go, a, t', htalk, ha, rfl⟩ := hstep
  -- Steps that the network cannot see come to an end, so the call comes up after finitely many.
  induction s using wellFounded_advance (g := g) |>.induction with
  | _ s ih =>
  have hspeaks := h.2 r hr
  unfold Rank.Speaks at hspeaks
  have hquiet {x' : Rank Silent α} (hact : Act g r s.carrier (s.rank r) s.carrier x')
      (hx : x'.Speaks (g.member r) (n.talk r)) : ∃ s', Reaches g s s' ∧
        s'.Mirrors g ⟨t', Function.update n.talk r (go a)⟩ := by
    have hadvance : Advance g s (s.put r s.carrier x') := ⟨r, hr, _, x', hact, rfl⟩
    obtain ⟨s', hreach, hmirrors⟩ := ih _ hadvance (h.quiet hx)
    exact ⟨s', Relation.ReflTransGen.head hadvance hreach, hmirrors⟩
  cases hstage : (s.rank r).stage with
  | free plan =>
    rw [hstage] at hspeaks
    cases plan with
    | done b =>
      rw [hspeaks] at htalk
      cases htalk
      rw [h.1] at ha
      exact ⟨_, .single ⟨r, hr, t', _, .leave b t' hstage ha, rfl⟩, h.put ⟨b, rfl, rfl⟩⟩
    | ask call' next =>
      cases call' with
      | exchange ρ => exact hquiet (.enter ρ next hstage) hspeaks
      | other call' => exact call'.elim
  | busy ρ talk next =>
    rw [hstage] at hspeaks
    cases talk with
    | done y => exact hquiet (.conclude ρ y.1 y.2 next hstage) hspeaks
    | ask call' go' =>
      rw [hspeaks] at htalk
      cases htalk
      rw [h.1] at ha
      exact ⟨_, .single ⟨r, hr, t', _, .talk ρ _ go' next a t' hstage ha, rfl⟩, h.put rfl⟩
  | gone result =>
    rw [hstage] at hspeaks
    obtain ⟨b, -, hdone⟩ := hspeaks
    rw [hdone] at htalk
    cases htalk

theorem Mirrors.reaches (h : s.Mirrors g n) (hreach : n.Reaches g.size n') :
    ∃ s', Reaches g s s' ∧ s'.Mirrors g n' := by
  induction hreach with
  | refl => exact ⟨s, .refl, h⟩
  | tail _ hstep ih =>
    obtain ⟨s₁, hreach₁, hmirrors₁⟩ := ih
    obtain ⟨s₂, hreach₂, hmirrors₂⟩ := hmirrors₁.step hstep
    exact ⟨s₂, Relation.ReflTransGen.trans hreach₁ hreach₂, hmirrors₂⟩

theorem Mirrors.progress {lines : C.State → Lines} (hC : C.Faithful g.size lines)
    (h : s.Mirrors g n) {w : Nat → Station} (hw : InStep g base s (lines s.carrier) w) :
    (∃ n', n.Step g.size n') ∨ ∃ s', Reaches g s s' ∧ s'.Mirrors g n ∧
      ∀ r < g.size, ∃ a, (s'.rank r).stage = .gone (some a) := by
  induction s using wellFounded_advance (g := g) |>.induction generalizing w with
  | _ s ih =>
  rcases hw.progress hC (fun call => Empty.elim call) with ⟨s₁, hadvance⟩ | hgone
  · rcases h.advance hadvance with hquiet | ⟨n', hstep, -⟩
    · obtain ⟨w', hw'⟩ := hw.advance hC hadvance
      refine (ih s₁ hadvance hquiet hw').imp_right ?_
      rintro ⟨s', hreach, hfinal⟩
      exact ⟨s', Relation.ReflTransGen.head hadvance hreach, hfinal⟩
    · exact .inl ⟨n', hstep⟩
  · refine .inr ⟨s, .refl, h, fun r hr => ?_⟩
    have hstands := (hw.standing r hr).stands
    rw [hgone r hr] at hstands
    obtain ⟨result, hstage⟩ := hstands
    have hspeaks := h.2 r hr
    unfold Rank.Speaks at hspeaks
    rw [hstage] at hspeaks
    obtain ⟨a, rfl, -⟩ := hspeaks
    exact ⟨a, hstage⟩

theorem Mirrors.talk_of_gone (h : s.Mirrors g n) (hr : r < g.size) {a : α}
    (hgone : (s.rank r).stage = .gone (some a)) : n.talk r = .done a := by
  have hspeaks := h.2 r hr
  unfold Rank.Speaks at hspeaks
  rw [hgone] at hspeaks
  obtain ⟨b, hb, hdone⟩ := hspeaks
  rw [hdone, Option.some.inj hb]

end Assembly

end Lagmeter
