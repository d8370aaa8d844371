import Lagmeter.Proofs.Exchange.Place
import Lagmeter.Proofs.Group.Carrier
import Mathlib.Logic.Function.Basic
import Mathlib.Logic.Relation

/-!
# Assemblies

An assembly is a group at work: every rank has a plan, which says what it brings to its exchanges,
one after the other, and a carrier joins the ranks. The ranks take their steps in any order.
Within an exchange a rank follows the dialogue of `exchange`, one call at a time. A rank whose
plan is over gives its link up.

`Advance.shift` says once what a step can do. All invariants are derived from it.
-/

namespace Lagmeter

structure Roster where
  size : Nat
  host : Nat → String

namespace Roster

def member (g : Roster) (rank : Nat) : Member := ⟨rank, g.size, g.host rank⟩

variable {g : Roster} {r : Nat}

theorem eq_zero_of_isRoot (h : (g.member r).isRoot = true) : r = 0 := of_decide_eq_true h

theorem ne_zero_of_isRoot (h : (g.member r).isRoot = false) : r ≠ 0 := of_decide_eq_false h

end Roster

/-! ## Plans -/

/-- What a plan may ask for: the next exchange, or something outside the group. -/
inductive PlanCall (J : Interface) where
  | exchange (ρ : Offer)
  | other (call : J.Call)

def PlanCall.Answer {J : Interface} : PlanCall J → Type
  | .exchange _ => Except GroupError Payload
  | .other call => J.Answer call

abbrev Planning (J : Interface) : Interface := ⟨PlanCall J, PlanCall.Answer⟩

/-- A program of exchanges. What it brings to an exchange may depend on all that came before. -/
abbrev Plan (J : Interface) (α : Type) := Dialogue (Planning J) α

/-! ## Ranks -/

inductive Stage (J : Interface) (α : Type) where
  | free (plan : Plan J α)
  | busy (ρ : Offer) (talk : Dialogue Link (Except GroupError Payload × Nat))
    (next : Except GroupError Payload → Plan J α)
  /-- It has left the group, with what its plan gave if that was over. -/
  | gone (result : Option α)

/-- A rank on its way, with the exchanges that it entered and what those that are over gave. -/
structure Rank (J : Interface) (α : Type) where
  stage : Stage J α
  /-- The number of its last exchange. -/
  sequence : Nat
  entered : List Offer := []
  results : List (Except GroupError Payload) := []

structure Assembly (C : Carrier) (J : Interface) (α : Type) where
  carrier : C.State
  rank : Nat → Rank J α

namespace Assembly

variable {C : Carrier} {J : Interface} {α : Type}

/-- All ranks are at the start of their plans, after exchange number `base`. -/
def start (t : C.State) (plans : Nat → Plan J α) (base : Nat) : Assembly C J α :=
  ⟨t, fun r => { stage := .free (plans r), sequence := base }⟩

def put (s : Assembly C J α) (r : Nat) (t : C.State) (x : Rank J α) : Assembly C J α :=
  ⟨t, Function.update s.rank r x⟩

@[simp] theorem put_rank (s : Assembly C J α) (r : Nat) (t : C.State) (x : Rank J α) :
    (s.put r t x).rank r = x := by simp [put]

theorem put_rank_ne {s : Assembly C J α} {r q : Nat} {t : C.State} {x : Rank J α} (h : q ≠ r) :
    (s.put r t x).rank q = s.rank q := by simp [put, h]

/-- The offers with which the ranks came to exchange `i`, counted from zero. -/
def offers (s : Assembly C J α) (i q : Nat) : Option Offer := (s.rank q).entered[i]?

/-- Ranks enter further exchanges and take none back. -/
def Grows (s s' : Assembly C J α) : Prop :=
  ∀ i q ρ, s.offers i q = some ρ → s'.offers i q = some ρ

theorem grows_put {s : Assembly C J α} {r : Nat} {t : C.State} {x : Rank J α}
    (h : (s.rank r).entered <+: x.entered) : s.Grows (s.put r t x) := by
  intro i q ρ hρ
  by_cases hq : q = r
  · subst hq
    rw [offers, put_rank]
    obtain ⟨more, hmore⟩ := h
    obtain ⟨hlt, -⟩ := List.getElem?_eq_some_iff.mp hρ
    rw [← hmore, List.getElem?_append_left hlt]
    exact hρ
  · rwa [offers, put_rank_ne hq]

/-! ## Steps -/

/-- A step of rank `r`: what becomes of the carrier and of the rank. -/
inductive Act (g : Roster) (r : Nat) (t : C.State) (x : Rank J α) : C.State → Rank J α → Prop where
  | enter (ρ : Offer) (next : Except GroupError Payload → Plan J α)
      (h : x.stage = .free (.ask (PlanCall.exchange ρ) next)) :
    Act g r t x t { x with
      stage := .busy ρ (ρ.dialogue (g.member r) x.sequence) next, entered := x.entered ++ [ρ] }
  | talk (ρ : Offer) (call : LinkCall)
      (go : call.Answer → Dialogue Link (Except GroupError Payload × Nat))
      (next : Except GroupError Payload → Plan J α) (a : call.Answer) (t' : C.State)
      (h : x.stage = .busy ρ (.ask call go) next) (ha : C.Answers t r call a t') :
    Act g r t x t' { x with stage := .busy ρ (go a) next }
  | conclude (ρ : Offer) (result : Except GroupError Payload) (sequence : Nat)
      (next : Except GroupError Payload → Plan J α)
      (h : x.stage = .busy ρ (.done (result, sequence)) next) :
    Act g r t x t { x with
      stage := .free (next result), sequence, results := x.results ++ [result] }
  | other (call : J.Call) (next : J.Answer call → Plan J α) (a : J.Answer call)
      (h : x.stage = .free (.ask (PlanCall.other call) next)) :
    Act g r t x t { x with stage := .free (next a) }
  | leave (a : α) (t' : C.State) (h : x.stage = .free (.done a))
      (ha : C.Answers t r .leave () t') :
    Act g r t x t' { x with stage := .gone (some a) }

/-- What may befall rank `r` at any moment: it vanishes, or it closes its link between two
exchanges. -/
inductive Mishap (r : Nat) (t : C.State) (x : Rank J α) : C.State → Rank J α → Prop where
  | vanish (t' : C.State) (ha : C.Answers t r .leave () t') :
    Mishap r t x t' { x with stage := .gone none }
  | close (plan : Plan J α) (a : Except GroupError Unit) (t' : C.State)
      (h : x.stage = .free plan) (ha : C.Answers t r .close a t') :
    Mishap r t x t' x

def Advance (g : Roster) (s s' : Assembly C J α) : Prop :=
  ∃ r < g.size, ∃ t' x', Act g r s.carrier (s.rank r) t' x' ∧ s' = s.put r t' x'

def Falter (g : Roster) (s s' : Assembly C J α) : Prop :=
  ∃ r < g.size, ∃ t' x', (Act g r s.carrier (s.rank r) t' x' ∨ Mishap r s.carrier (s.rank r) t' x') ∧
    s' = s.put r t' x'

/-- States that some order of steps leads to. -/
def Reaches (g : Roster) : Assembly C J α → Assembly C J α → Prop :=
  Relation.ReflTransGen (Advance g)

end Assembly

/-! ## What a step can do -/

inductive Station where
  | between
  | within (place : Exchange.Place)
  | gone

namespace Rank

variable {C : Carrier} {J : Interface} {α : Type}

/-- What the state of a rank says at a station. -/
def Stands (m : Member) (base : Nat) (x : Rank J α) : Station → Prop
  | .between => (∃ plan, x.stage = .free plan) ∧ x.entered.length = x.results.length
  | .within place => ∃ past ρ next, x.entered = past ++ [ρ] ∧ past.length = x.results.length ∧
      x.stage = .busy ρ (place.dialogue m (base + x.results.length + 1) ρ) next
  | .gone => ∃ result, x.stage = .gone result

/-- A rank that started after exchange number `base` is at a station. -/
structure At (m : Member) (base : Nat) (x : Rank J α) (w : Station) : Prop where
  sequence : x.sequence = base + x.results.length
  stands : x.Stands m base w

/-- What a step does to the rank that takes it, seen from its stations. -/
inductive Shift (m : Member) (base : Nat) (t : C.State) (x : Rank J α) :
    Station → C.State → Rank J α → Station → Prop where
  | enter (ρ : Offer) (x' : Rank J α) (hentered : x'.entered = x.entered ++ [ρ])
      (hresults : x'.results = x.results) :
    Shift m base t x .between t x' (.within .entering)
  | talk (ρ : Offer) (place place' : Exchange.Place) (call : LinkCall) (a : call.Answer)
      (t' : C.State) (x' : Rank J α) (hρ : x.entered[x.results.length]? = some ρ)
      (hmove : Exchange.Moves m (base + x.results.length + 1) ρ place call a place')
      (ha : C.Answers t m.rank call a t')
      (hentered : x'.entered = x.entered) (hresults : x'.results = x.results) :
    Shift m base t x (.within place) t' x' (.within place')
  | conclude (result : Except GroupError Payload) (x' : Rank J α)
      (hentered : x'.entered = x.entered) (hresults : x'.results = x.results ++ [result]) :
    Shift m base t x (.within (.finished result)) t x' .between
  | other (x' : Rank J α) (hentered : x'.entered = x.entered) (hresults : x'.results = x.results) :
    Shift m base t x .between t x' .between
  | leave (t' : C.State) (x' : Rank J α) (ha : C.Answers t m.rank .leave () t')
      (hentered : x'.entered = x.entered) (hresults : x'.results = x.results) :
    Shift m base t x .between t' x' .gone

variable {m : Member} {base : Nat} {x : Rank J α} {w : Station}

theorem At.of_free {plan : Plan J α} (h : x.At m base w) (hx : x.stage = .free plan) :
    w = .between ∧ x.entered.length = x.results.length := by
  cases w with
  | between => exact ⟨rfl, h.stands.2⟩
  | within place =>
    obtain ⟨past, ρ, next, -, -, hstage⟩ := h.stands
    rw [hx] at hstage
    cases hstage
  | gone =>
    obtain ⟨result, hstage⟩ := h.stands
    rw [hx] at hstage
    cases hstage

theorem At.of_busy {ρ : Offer} {talk : Dialogue Link (Except GroupError Payload × Nat)}
    {next : Except GroupError Payload → Plan J α} (h : x.At m base w)
    (hx : x.stage = .busy ρ talk next) :
    ∃ place past, w = .within place ∧ x.entered = past ++ [ρ] ∧ past.length = x.results.length ∧
      talk = place.dialogue m (base + x.results.length + 1) ρ := by
  cases w with
  | between =>
    obtain ⟨⟨plan, hstage⟩, -⟩ := h.stands
    rw [hx] at hstage
    cases hstage
  | within place =>
    obtain ⟨past, ρ', next', hentered, hpast, hstage⟩ := h.stands
    rw [hx] at hstage
    cases hstage
    exact ⟨place, past, rfl, hentered, hpast, rfl⟩
  | gone =>
    obtain ⟨result, hstage⟩ := h.stands
    rw [hx] at hstage
    cases hstage

theorem At.shift {g : Roster} {r : Nat} {t t' : C.State} {x' : Rank J α}
    (hat : x.At (g.member r) base w) (h : Assembly.Act g r t x t' x') :
    ∃ w', x'.At (g.member r) base w' ∧ x.Shift (g.member r) base t w t' x' w' := by
  cases h with
  | enter ρ next h =>
    obtain ⟨rfl, hlen⟩ := hat.of_free h
    refine ⟨.within .entering, ⟨hat.sequence, x.entered, ρ, next, rfl, hlen, ?_⟩, .enter ρ _ rfl rfl⟩
    rw [Exchange.dialogue_entering, ← hat.sequence]
  | talk ρ call go next a t' h ha =>
    obtain ⟨place, past, rfl, hentered, hpast, htalk⟩ := hat.of_busy h
    obtain ⟨place', hmove, hgo⟩ := Exchange.Place.dialogue_ask htalk.symm a
    refine ⟨.within place', ⟨hat.sequence, past, ρ, next, hentered, hpast, by rw [hgo]⟩,
      .talk ρ place place' call a t' _ ?_ hmove ha rfl rfl⟩
    rw [hentered, ← hpast, List.getElem?_concat_length]
  | conclude ρ result sequence next h =>
    obtain ⟨place, past, rfl, hentered, hpast, htalk⟩ := hat.of_busy h
    obtain ⟨result', rfl, hresult⟩ := Exchange.Place.dialogue_done htalk.symm
    obtain ⟨rfl, rfl⟩ := Prod.mk.inj hresult
    refine ⟨.between, ⟨?_, ⟨_, rfl⟩, ?_⟩, .conclude result _ rfl rfl⟩
    · simp [Nat.add_assoc]
    · simp [hentered, hpast]
  | other call next a h =>
    obtain ⟨rfl, hlen⟩ := hat.of_free h
    exact ⟨.between, ⟨hat.sequence, ⟨_, rfl⟩, hlen⟩, .other _ rfl rfl⟩
  | leave a t' h ha =>
    obtain ⟨rfl, hlen⟩ := hat.of_free h
    exact ⟨.gone, ⟨hat.sequence, _, rfl⟩, .leave t' _ ha rfl rfl⟩

theorem Shift.grows {t t' : C.State} {x' : Rank J α} {w' : Station}
    (h : x.Shift m base t w t' x' w') : x.entered <+: x'.entered := by
  cases h with
  | enter ρ _ hentered _ => exact hentered ▸ List.prefix_append _ _
  | talk _ _ _ _ _ _ _ _ _ _ hentered _ => exact hentered ▸ List.prefix_rfl
  | conclude _ _ hentered _ => exact hentered ▸ List.prefix_rfl
  | other _ hentered _ => exact hentered ▸ List.prefix_rfl
  | leave _ _ _ hentered _ => exact hentered ▸ List.prefix_rfl

end Rank

namespace Assembly

variable {C : Carrier} {J : Interface} {α : Type} {s : Assembly C J α} {r : Nat} {t' : C.State}
  {x' : Rank J α}

theorem forall_put {P : Nat → Rank J α → Station → Prop} {size : Nat} (w : Nat → Station)
    (w' : Station) (hown : P r x' w') (hothers : ∀ q < size, P q (s.rank q) (w q)) :
    ∀ q < size, P q ((s.put r t' x').rank q) (Function.update w r w' q) := by
  intro q hq
  by_cases hqr : q = r
  · subst hqr
    rw [put_rank, Function.update_self]
    exact hown
  · rw [put_rank_ne hqr, Function.update_of_ne hqr]
    exact hothers q hq

end Assembly

theorem forall_getElem?_concat {β : Type} {xs : List β} {x : β} {P : Nat → β → Prop}
    (hold : ∀ i y, xs[i]? = some y → P i y) (hnew : P xs.length x) {i : Nat} {y : β}
    (hi : (xs ++ [x])[i]? = some y) : P i y := by
  rcases Nat.lt_trichotomy i xs.length with hlt | rfl | hgt
  · rw [List.getElem?_append_left hlt] at hi
    exact hold i y hi
  · rw [List.getElem?_concat_length, Option.some.injEq] at hi
    exact hi ▸ hnew
  · rw [List.getElem?_eq_none (by simp; omega)] at hi
    cases hi

end Lagmeter
