import Lagmeter.Proofs.Group.Net
import Lagmeter.Proofs.Star.Carrier
import Lagmeter.Proofs.Star.Rounds

/-!
# Visits over lines

Ranks that follow visits over lines go the way of an assembly whose ranks leave when they close
their links. What a rank says after its closing changes nothing for the others.
-/

namespace Lagmeter

variable {α : Type} {g : Roster} {base : Nat}

namespace Lines

variable {size rank : Nat} {l l' : Lines} {call : LinkCall} {a : call.Answer}

/-- Lines whose errors are those of the star. -/
abbrev usual (size : Nat) : Carrier where
  State := Lines
  Answers l rank call a l' :=
    l.Allows size rank call a l' ∧ (l.isOpen rank = true → Star.Usual call a)

theorem usual_of_allows (h : l.Allows size rank call a l') :
    ∃ a' l', (usual size).Answers l rank call a' l' := by
  cases h with
  | sent peer f hpeer hopen => exact ⟨_, _, .sent peer f hpeer hopen, fun _ => trivial⟩
  | unsent peer f e h => exact ⟨_, _, .unsent peer f (.disconnected peer) h, fun _ => .inl rfl⟩
  | lost peer f h => exact ⟨_, _, .lost peer f h, fun _ => trivial⟩
  | received peer f hpeer hopen hf => exact ⟨_, _, .received peer f hpeer hopen hf, fun _ => trivial⟩
  | bereft peer e h => exact ⟨_, _, .bereft peer (.disconnected peer) h, fun _ => .inl rfl⟩
  | closed a => exact ⟨_, _, .closed a, fun _ => trivial⟩
  | left => exact ⟨_, _, .left, fun _ => trivial⟩
  | told event => exact ⟨_, _, .told event, fun _ => trivial⟩

theorem faithful_usual (size : Nat) : (usual size).Faithful size id where
  sound _ ha := ha.1
  live _ ha := usual_of_allows ha

theorem shut_of_closed {l : Lines} {rank : Nat} (h : l.isOpen rank = false) : l.shut rank = l := by
  obtain ⟨queue, isOpen⟩ := l
  simp only [shut, Lines.mk.injEq, true_and]
  funext a
  split
  · rename_i ha
    exact ha ▸ h.symm
  · rfl

theorem Allows.of_closed (h : l.Allows size rank call a l') (hclosed : l.isOpen rank = false)
    {α : Type} {P : α → Prop} {go : call.Answer → Dialogue Link α}
    (halone : (Dialogue.ask (I := Link) call go).Alone P) : l' = l ∧ (go a).Alone P := by
  cases h with
  | sent peer f hpeer hopen =>
    rw [hclosed] at hopen
    cases hopen.1
  | unsent peer f e h => exact ⟨rfl, halone _⟩
  | lost peer f h => exact ⟨rfl, halone _⟩
  | received peer f hpeer hopen hf =>
    rw [hclosed] at hopen
    cases hopen
  | bereft peer e h => exact ⟨rfl, halone e⟩
  | closed a => exact ⟨shut_of_closed hclosed, halone _⟩
  | left => exact ⟨shut_of_closed hclosed, halone _⟩
  | told event => exact ⟨rfl, halone _⟩

theorem answers_of_closed (size : Nat) (call : LinkCall) (hclosed : l.isOpen rank = false) :
    ∃ a l', (usual size).Answers l rank call a l' := by
  rcases l.allows_or_waits size rank call with ⟨a, l', h⟩ | ⟨peer, rfl, -⟩
  · exact usual_of_allows h
  · exact usual_of_allows (.bereft peer (.disconnected peer) (.inr (.inl hclosed)))

end Lines

/-! ## Ranks and what they say -/

/-- What a rank at its stage still has to say. -/
def Rank.Tells (m : Member) (x : Rank Silent (Visit.Ending α)) (d : Dialogue Link α) : Prop :=
  match x.stage with
  | .free plan => d = Visit.planTalk m plan x.sequence
  | .busy _ talk next => d = talk.bind fun y => Visit.planTalk m (next y.1) y.2
  | .gone result => ∃ b, result = some b ∧ d.Alone (· = b.value m)

theorem Visit.Ending.of_ask {m : Member} {b : Visit.Ending α} {k : Nat} {call : LinkCall}
    {go : call.Answer → Dialogue Link α} (h : b.talk m k = .ask call go) :
    (call = .leave ∨ call = .close) ∧ ∀ a, (go a).Alone (· = b.value m) := by
  cases b with
  | finished a =>
    cases h
    exact ⟨.inl rfl, fun _ => rfl⟩
  | closed rest =>
    cases h
    exact ⟨.inr rfl, fun _ => rest.alone_talk k⟩

namespace Assembly

/-- The ranks of the network say what those of the assembly have to say. -/
def Voices (g : Roster) (s : Assembly (Lines.usual g.size) Silent (Visit.Ending α))
    (n : Net (Lines.usual g.size) α) : Prop :=
  n.carrier = s.carrier ∧ ∀ r < g.size, (s.rank r).Tells (g.member r) (n.talk r)

variable {s s' : Assembly (Lines.usual g.size) Silent (Visit.Ending α)}
  {n n' : Net (Lines.usual g.size) α} {r : Nat} {w : Nat → Station}

theorem Voices.put (h : s.Voices g n) {l : Lines} {x' : Rank Silent (Visit.Ending α)}
    {d : Dialogue Link α} (hx : x'.Tells (g.member r) d) :
    (s.put r l x').Voices g ⟨l, Function.update n.talk r d⟩ := by
  refine ⟨rfl, fun q hq => ?_⟩
  by_cases hqr : q = r
  · subst hqr
    simpa using hx
  · simpa only [put_rank_ne hqr, Function.update_of_ne hqr] using h.2 q hq

theorem Voices.quiet (h : s.Voices g n) {x' : Rank Silent (Visit.Ending α)}
    (hx : x'.Tells (g.member r) (n.talk r)) : (s.put r s.carrier x').Voices g n := by
  have hput : (s.put r s.carrier x').Voices g ⟨s.carrier, _⟩ := h.put hx
  rw [Function.update_eq_self, ← h.1] at hput
  rwa [← h.1]

theorem InStep.closed_of_gone {l : Lines} {C : Carrier} {J : Interface} {β : Type}
    {s : Assembly C J β} (h : InStep g base s l w) (hr : r < g.size) {result : Option β}
    (hgone : (s.rank r).stage = .gone result) : l.isOpen r = false := by
  rw [← Bool.not_eq_true, h.isOpen r hr, not_not]
  have hstands := (h.standing r hr).stands
  cases hw : w r with
  | gone => rfl
  | between =>
    rw [hw] at hstands
    obtain ⟨⟨plan, hstage⟩, -⟩ := hstands
    rw [hgone] at hstage
    cases hstage
  | within place =>
    rw [hw] at hstands
    obtain ⟨_, _, _, -, -, hstage⟩ := hstands
    rw [hgone] at hstage
    cases hstage

/-- A call of the network is a step of the assembly, or comes from a rank that has left. -/
theorem Voices.step (h : s.Voices g n) (hw : InStep g base s s.carrier w)
    (hstep : n.Step g.size n') : ∃ s', Reaches g s s' ∧ s'.Voices g n' := by
  obtain ⟨r, hr, call, go, a, l', htalk, ha, rfl⟩ := hstep
  -- Steps that the network cannot see come to an end, so the call comes up after finitely many.
  induction s using wellFounded_advance (g := g) |>.induction generalizing w with
  | _ s ih =>
  have htells := h.2 r hr
  unfold Rank.Tells at htells
  have hquiet {x' : Rank Silent (Visit.Ending α)}
      (hact : Act g r s.carrier (s.rank r) s.carrier x') (hx : x'.Tells (g.member r) (n.talk r)) :
      ∃ s', Reaches g s s' ∧ s'.Voices g ⟨l', Function.update n.talk r (go a)⟩ := by
    have hadvance : Advance g s (s.put r s.carrier x') := ⟨r, hr, _, x', hact, rfl⟩
    obtain ⟨w', hw'⟩ := hw.advance (Lines.faithful_usual g.size) hadvance
    obtain ⟨s', hreach, hvoices⟩ := ih _ hadvance (h.quiet hx) hw'
    exact ⟨s', Relation.ReflTransGen.head hadvance hreach, hvoices⟩
  cases hstage : (s.rank r).stage with
  | free plan =>
    rw [hstage] at htells
    cases plan with
    | ask call' next =>
      cases call' with
      | exchange ρ => exact hquiet (.enter ρ next hstage) htells
      | other call' => exact call'.elim
    | done b =>
      rw [htalk] at htells
      obtain ⟨hcall, halone⟩ := Visit.Ending.of_ask htells.symm
      have hshut : l' = s.carrier.shut r := by
        rw [← h.1]
        rcases hcall with rfl | rfl
        · cases ha.1
          rfl
        · cases ha.1
          rfl
      subst hshut
      exact ⟨_, .single ⟨r, hr, _, _, .leave b _ hstage ⟨.left, fun _ => trivial⟩, rfl⟩,
        h.put ⟨b, rfl, halone a⟩⟩
  | busy ρ talk next =>
    rw [hstage] at htells
    cases talk with
    | done y => exact hquiet (.conclude ρ y.1 y.2 next hstage) htells
    | ask call' go' =>
      rw [htells] at htalk
      cases htalk
      rw [h.1] at ha
      exact ⟨_, .single ⟨r, hr, l', _, .talk ρ _ go' next a l' hstage ha, rfl⟩, h.put rfl⟩
  | gone result =>
    rw [hstage] at htells
    obtain ⟨b, rfl, halone⟩ := htells
    rw [htalk] at halone
    have hclosed : n.carrier.isOpen r = false := h.1 ▸ hw.closed_of_gone hr hstage
    obtain ⟨rfl, hrest⟩ := ha.1.of_closed hclosed halone
    refine ⟨s, .refl, h.1, fun q hq => ?_⟩
    by_cases hqr : q = r
    · subst hqr
      simp only [Function.update_self, Rank.Tells, hstage]
      exact ⟨b, rfl, hrest⟩
    · simpa only [Function.update_of_ne hqr] using h.2 q hq

theorem Voices.advance (h : s.Voices g n) (hstep : Advance g s s') :
    s'.Voices g n ∨ ∃ n', n.Step g.size n' := by
  obtain ⟨r, hr, l', x', hact, rfl⟩ := hstep
  have htells := h.2 r hr
  unfold Rank.Tells at htells
  cases hact with
  | enter ρ next hstage =>
    rw [hstage] at htells
    exact .inl (h.quiet htells)
  | talk ρ call go next a _ hstage ha =>
    rw [hstage] at htells
    rw [← h.1] at ha
    exact .inr ⟨_, r, hr, call, _, a, l', htells, ha, rfl⟩
  | conclude ρ result sequence next hstage =>
    rw [hstage] at htells
    exact .inl (h.quiet htells)
  | other call next a hstage => exact call.elim
  | leave b _ hstage ha =>
    rw [hstage] at htells
    cases b with
    | finished a => exact .inr ⟨_, r, hr, .leave, _, (), _, htells, ⟨.left, fun _ => trivial⟩, rfl⟩
    | closed rest =>
      exact .inr ⟨_, r, hr, .close, _, .ok (), _, htells, ⟨.closed _, fun _ => trivial⟩, rfl⟩

theorem Voices.progress (h : s.Voices g n) (hw : InStep g base s s.carrier w) :
    (∃ n', n.Step g.size n') ∨
      ∃ s', Reaches g s s' ∧ s'.Voices g n ∧ s'.Complete g ∧ ∀ r < g.size, ∃ a, n.talk r = .done a := by
  have hC := Lines.faithful_usual g.size
  induction s using wellFounded_advance (g := g) |>.induction generalizing w with
  | _ s ih =>
  rcases hw.progress hC (fun call => Empty.elim call) with ⟨s₁, hadvance⟩ | hgone
  · rcases h.advance hadvance with hquiet | hstep
    · obtain ⟨w', hw'⟩ := hw.advance hC hadvance
      refine (ih s₁ hadvance hquiet hw').imp_right ?_
      rintro ⟨s', hreach, hfinal⟩
      exact ⟨s', Relation.ReflTransGen.head hadvance hreach, hfinal⟩
    · exact .inl hstep
  · have hstage : ∀ r < g.size, ∃ b, (s.rank r).stage = .gone (some b) ∧
        (n.talk r).Alone (· = b.value (g.member r)) := by
      intro r hr
      have hstands := (hw.standing r hr).stands
      rw [hgone r hr] at hstands
      obtain ⟨result, hstage⟩ := hstands
      have htells := h.2 r hr
      unfold Rank.Tells at htells
      rw [hstage] at htells
      obtain ⟨b, rfl, halone⟩ := htells
      exact ⟨b, hstage, halone⟩
    -- Ranks that have left may still talk to themselves.
    by_cases htalk : ∃ r < g.size, ∃ (call : LinkCall) (go : call.Answer → Dialogue Link α),
        n.talk r = .ask call go
    · obtain ⟨r, hr, call, go, hr'⟩ := htalk
      obtain ⟨b, hb, -⟩ := hstage r hr
      have hclosed : n.carrier.isOpen r = false := h.1 ▸ hw.closed_of_gone hr hb
      obtain ⟨a, l', ha⟩ := Lines.answers_of_closed g.size call hclosed
      exact .inl ⟨_, r, hr, call, go, a, l', hr', ha, rfl⟩
    · refine .inr ⟨s, .refl, h, fun r hr => ?_, fun r hr => ?_⟩
      · obtain ⟨b, hb, -⟩ := hstage r hr
        exact ⟨b, hb⟩
      · cases hd : n.talk r with
        | done a => exact ⟨a, rfl⟩
        | ask call go => exact absurd ⟨r, hr, call, go, hd⟩ htalk

end Assembly

end Lagmeter
