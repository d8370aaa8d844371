import Lagmeter.Proofs.Group.AllOrNothing
import Lagmeter.Proofs.Star.Visit

/-!
# Rounds

What the exchanges of a group give does not depend on who is faster. The reference lets all ranks
take their exchanges round by round: those that still come to an exchange bring their offers, and
all of them get its replies or fail. An assembly that has come to its end went through these
rounds, whatever carried its frames, if its plans do not look at errors.
-/

namespace Lagmeter

open Exchange

variable {β : Type}

namespace Plan

/-- The exchange that comes next. -/
def offer? : Plan Silent β → Option Offer
  | .done _ => none
  | .ask (.exchange ρ) _ => some ρ

/-- What is left of a plan after its next exchange. -/
def feed : Plan Silent β → Except GroupError Payload → Plan Silent β
  | .done b, _ => .done b
  | .ask (.exchange _) next, x => next x

/-- A plan of checked requests, to which all errors are the same. -/
def Blind (m : Member) : Plan Silent β → Prop
  | .done _ => True
  | .ask (.exchange ρ) next => (∃ q : Request, q.check m = .ok () ∧ ρ = q.offer m) ∧
      (∀ e e', next (.error e) = next (.error e')) ∧ ∀ x, Blind m (next x)

variable {m : Member} {p p' : Plan Silent β} {entered : List Offer}
  {results : List (Except GroupError Payload)}

theorem Blind.feed (h : p.Blind m) (x : Except GroupError Payload) : (p.feed x).Blind m := by
  cases p with
  | done b => trivial
  | ask call next =>
    cases call with
    | exchange ρ => exact h.2.2 x
    | other call => exact call.elim

theorem Blind.feed_error (h : p.Blind m) (e e' : GroupError) :
    p.feed (.error e) = p.feed (.error e') := by
  cases p with
  | done b => rfl
  | ask call next =>
    cases call with
    | exchange ρ => exact h.2.1 e e'
    | other call => exact call.elim

theorem Blind.offer (h : p.Blind m) {ρ : Offer} (hρ : p.offer? = some ρ) :
    ∃ q : Request, q.check m = .ok () ∧ ρ = q.offer m := by
  cases p with
  | done b => cases hρ
  | ask call next =>
    cases call with
    | exchange ρ' =>
      obtain rfl := Option.some.inj hρ
      exact h.1
    | other call => exact call.elim

theorem Leads.foldl_feed (h : p.Leads entered results p') : results.foldl feed p = p' := by
  induction h with
  | refl => rfl
  | exchange ρ next x _ ih =>
    rw [List.foldl_append, ih]
    rfl
  | other call _ _ _ _ => exact call.elim

theorem Leads.entered_eq (h : p.Leads entered results p') : entered.length = results.length ∧
    ∀ k < results.length, entered[k]? = ((results.take k).foldl feed p).offer? := by
  induction h with
  | refl => exact ⟨rfl, nofun⟩
  | other call _ _ _ _ => exact call.elim
  | @exchange entered results ρ next x hleads ih =>
    obtain ⟨hlength, hentered⟩ := ih
    refine ⟨by simp [hlength], fun k hk => ?_⟩
    by_cases hlast : k = results.length
    · subst hlast
      rw [List.take_left, hleads.foldl_feed, ← hlength, List.getElem?_concat_length]
      rfl
    · simp only [List.length_append, List.length_singleton] at hk
      rw [List.take_append_of_le_length (by omega), List.getElem?_append_left (by omega)]
      exact hentered k (by omega)

end Plan

theorem Visit.blind_plan {α : Type} (m : Member) (d : Visit α) : (d.plan m).Blind m := by
  induction d with
  | done a => trivial
  | ask call next ih =>
    cases call with
    | close => trivial
    | request q =>
      rw [Visit.plan]
      cases hq : q.check m with
      | error e => exact ih none
      | ok _ => exact ⟨⟨q, hq, rfl⟩, fun _ _ => rfl, fun x => ih _⟩

/-! ## The reference -/

/-- What the first `n` ranks bring, if all of them come. -/
def everyone (offers : Nat → Option Offer) : Nat → Option (List Offer)
  | 0 => some []
  | n + 1 => do return (← everyone offers n) ++ [← offers n]

/-- The replies of an exchange to which rank `q` comes with `offers q`, if there are any. -/
def replies? (size : Nat) (offers : Nat → Option Offer) : Option (List Payload) := do
  let all ← everyone offers size
  let root ← all.head?
  if ∀ ρ ∈ all, ρ.operation = root.operation then
    (combined size root.combine (.ok (all.map (·.contribution)))).toOption
  else none

/-- What an exchange with these replies gives to rank `r`. -/
def outcomeFor (replies : Option (List Payload)) (r : Nat) : Except GroupError Payload :=
  match replies.bind (·[r]?) with
  | some payload => Assembly.award r payload
  | none => .error (.collective .emptyGroup)

/-- The plans of all ranks after `k` rounds. -/
def rounds (size : Nat) (plans : Nat → Plan Silent β) : Nat → Nat → Plan Silent β
  | 0, r => plans r
  | k + 1, r => (rounds size plans k r).feed
    (outcomeFor (replies? size fun q => (rounds size plans k q).offer?) r)

/-- The offers of round `k`, counted from zero. -/
def roundOffers (size : Nat) (plans : Nat → Plan Silent β) (k q : Nat) : Option Offer :=
  (rounds size plans k q).offer?

theorem everyone_eq_some {offers : Nat → Option Offer} {n : Nat} {all : List Offer} :
    everyone offers n = some all ↔ ∃ common : Nat → Offer,
      (∀ q < n, offers q = some (common q)) ∧ all = (List.range n).map common := by
  induction n generalizing all with
  | zero =>
    simp only [everyone, Option.some.injEq, List.range_zero, List.map_nil]
    refine ⟨fun h => ⟨fun _ => .meet default, nofun, h.symm⟩, ?_⟩
    rintro ⟨-, -, rfl⟩
    rfl
  | succ n ih =>
    simp only [everyone, bind, Option.bind_eq_some_iff, pure, Option.some.injEq, ih]
    constructor
    · rintro ⟨before, ⟨common, hcommon, rfl⟩, last, hlast, rfl⟩
      refine ⟨fun q => if q = n then last else common q, fun q hq => ?_, ?_⟩
      · by_cases hqn : q = n
        · simp only [hqn, hlast, if_true]
        · simp only [hqn, if_false]
          exact hcommon q (by omega)
      · rw [List.range_succ, List.map_append, List.map_singleton, if_pos rfl]
        congr 1
        refine List.map_congr_left fun q hq => ?_
        rw [if_neg (Nat.ne_of_lt (List.mem_range.mp hq))]
    · rintro ⟨common, hcommon, rfl⟩
      refine ⟨_, ⟨common, fun q hq => hcommon q (by omega), rfl⟩, common n, hcommon n (by omega), ?_⟩
      rw [List.range_succ, List.map_append, List.map_singleton]

theorem toOption_eq_some {ε γ : Type} {x : Except ε γ} {a : γ} : x.toOption = some a ↔ x = .ok a := by
  cases x <;> simp [Except.toOption]

theorem replies?_eq_some {size : Nat} (hsize : 0 < size) {offers : Nat → Option Offer}
    {replies : List Payload} : replies? size offers = some replies ↔ Agreed size offers replies := by
  have hroot (common : Nat → Offer) : ((List.range size).map common).head? = some (common 0) := by
    obtain ⟨n, rfl⟩ : ∃ n, size = n + 1 := ⟨size - 1, by omega⟩
    rw [List.range_succ_eq_map]
    rfl
  have hall (common : Nat → Offer) : (∀ ρ ∈ (List.range size).map common,
      ρ.operation = (common 0).operation) ↔ ∀ q < size, (common q).operation = (common 0).operation := by
    simp
  have hcombine (common : Nat → Offer) : ((List.range size).map common).map (·.contribution) =
      (List.range size).map fun q => (common q).contribution := by simp
  constructor
  · intro h
    simp only [replies?, bind, Option.bind_eq_some_iff] at h
    obtain ⟨all, heveryone, root, hhead, h⟩ := h
    obtain ⟨common, hcommon, rfl⟩ := everyone_eq_some.mp heveryone
    rw [hroot, Option.some.injEq] at hhead
    subst hhead
    split at h
    case isTrue hop =>
      rw [toOption_eq_some, hcombine, combined_eq_ok_iff] at h
      exact ⟨common, hcommon, (hall common).mp hop, h⟩
    case isFalse => cases h
  · rintro ⟨common, hcommon, hop, h⟩
    have heveryone := everyone_eq_some.mpr ⟨common, hcommon, rfl⟩
    simp only [replies?, heveryone, bind, Option.bind_some, hroot, if_pos ((hall common).mpr hop)]
    rw [toOption_eq_some, hcombine, combined_eq_ok_iff]
    exact h

/-! ## Assemblies that have come to their end -/

theorem blind_rounds {g : Roster} {plans : Nat → Plan Silent β}
    (h : ∀ r < g.size, (plans r).Blind (g.member r)) (k : Nat) :
    ∀ r < g.size, (rounds g.size plans k r).Blind (g.member r) := by
  induction k with
  | zero => exact h
  | succ k ih => exact fun r hr => (ih r hr).feed _

theorem rounds_of_done {size : Nat} {plans : Nat → Plan Silent β} {k k' r : Nat} {b : β}
    (h : rounds size plans k r = .done b) (hk : k ≤ k') : rounds size plans k' r = .done b := by
  induction hk with
  | refl => exact h
  | step _ ih =>
    rw [rounds, ih]
    rfl

namespace Assembly

variable {C : Carrier} {g : Roster} {base : Nat} {s : Assembly C Silent β} {l : Lines}
  {w : Nat → Station} {t : C.State} {plans : Nat → Plan Silent β}

def Complete (g : Roster) (s : Assembly C Silent β) : Prop :=
  ∀ r < g.size, ∃ b, (s.rank r).stage = .gone (some b)

theorem history (hs : Reaches g (start t plans base) s) {r : Nat} {b : β}
    (hgone : (s.rank r).stage = .gone (some b)) :
    (s.rank r).results.foldl Plan.feed (plans r) = .done b ∧
      ∀ k, s.offers k r = (((s.rank r).results.take k).foldl Plan.feed (plans r)).offer? := by
  have hkeeps := keeps_of_reaches hs r
  unfold Rank.Keeps at hkeeps
  rw [hgone] at hkeeps
  obtain ⟨_, ⟨⟩, hleads⟩ := hkeeps
  obtain ⟨hlength, hentered⟩ := hleads.entered_eq
  refine ⟨hleads.foldl_feed, fun k => ?_⟩
  by_cases hk : k < (s.rank r).results.length
  · exact hentered k hk
  · rw [List.take_of_length_le (by omega), hleads.foldl_feed, offers,
      List.getElem?_eq_none (by omega)]
    rfl

variable (hplans : ∀ r < g.size, (plans r).Blind (g.member r))

include hplans

theorem feed_take (hs : Reaches g (start t plans base) s) (hw : InStep g base s l w)
    (hcomplete : s.Complete g) (k : Nat) : ∀ r < g.size,
      ((s.rank r).results.take k).foldl Plan.feed (plans r) = rounds g.size plans k r := by
  induction k with
  | zero => exact fun r _ => rfl
  | succ k ih =>
    intro r hr
    have hsize : 0 < g.size := by omega
    have hoffers : ∀ q < g.size, s.offers k q = roundOffers g.size plans k q := by
      intro q hq
      obtain ⟨b, hgone⟩ := hcomplete q hq
      rw [(history hs hgone).2 k, ih q hq]
      rfl
    by_cases hk : k < (s.rank r).results.length
    · have hx := List.getElem?_eq_getElem hk
      generalize (s.rank r).results[k] = x at hx
      rw [List.take_add_one, hx, List.foldl_append, ih r hr, rounds]
      show (rounds g.size plans k r).feed x = _
      rcases hw.fates r hr k x hx with ⟨replies, payload, hagreed, hreply, rfl⟩ | ⟨hdoomed, e, rfl⟩
      · have hreplies : replies? g.size (roundOffers g.size plans k) = some replies :=
          (replies?_eq_some hsize).mpr (hagreed.mono fun q hq ρ hρ => hoffers q hq ▸ hρ)
        show _ = (rounds g.size plans k r).feed (outcomeFor (replies? _ (roundOffers _ plans k)) r)
        simp only [hreplies, outcomeFor, Option.bind_some, hreply]
      · have hnone : replies? g.size (roundOffers g.size plans k) = none := by
          rw [Option.eq_none_iff_forall_ne_some]
          intro replies hreplies
          have hagreed := (replies?_eq_some hsize).mp hreplies
          exact hdoomed.not_agreed (hagreed.mono fun q hq ρ hρ => (hoffers q hq).symm ▸ hρ)
        show _ = (rounds g.size plans k r).feed (outcomeFor (replies? _ (roundOffers _ plans k)) r)
        simp only [hnone, outcomeFor, Option.bind_none]
        exact (blind_rounds hplans k r hr).feed_error _ _
    · obtain ⟨b, hgone⟩ := hcomplete r hr
      have hend := ih r hr
      rw [List.take_of_length_le (by omega), (history hs hgone).1] at hend
      rw [List.take_of_length_le (by omega), (history hs hgone).1, rounds, ← hend]
      rfl

theorem rounds_of_gone (hs : Reaches g (start t plans base) s) (hw : InStep g base s l w)
    (hcomplete : s.Complete g) {r : Nat} (hr : r < g.size) {b : β}
    (hgone : (s.rank r).stage = .gone (some b)) :
    ∃ k, rounds g.size plans k r = .done b := by
  refine ⟨(s.rank r).results.length, ?_⟩
  rw [← feed_take hplans hs hw hcomplete _ r hr, List.take_length]
  exact (history hs hgone).1

theorem offers_of_complete (hs : Reaches g (start t plans base) s) (hw : InStep g base s l w)
    (hcomplete : s.Complete g) (k : Nat) {q : Nat} (hq : q < g.size) :
    s.offers k q = roundOffers g.size plans k q := by
  obtain ⟨b, hgone⟩ := hcomplete q hq
  rw [(history hs hgone).2 k, feed_take hplans hs hw hcomplete k q hq]
  rfl

end Assembly

end Lagmeter
