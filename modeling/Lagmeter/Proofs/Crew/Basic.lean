import Lagmeter.Cycle.Seat
import Lagmeter.Proofs.Group.Termination

/-!
# Crews

A crew is a group whose ranks sit at their seats: each follows a dialogue with its link and its
node. The ranks take their steps in any order. A call of a node takes time, so that it begins in
one step and ends in another, and others may do anything in between. Ranks that are missing take no
steps.
-/

namespace Lagmeter

/-- What the node of a rank answers to its calls. -/
structure Conduct where
  phase : NodePhase → Except Fault Unit
  report : Except Fault Unit
  role : Role
  outcome : Outcome

/-- The answer of the node, unless the call is for the link. -/
def Conduct.answer? (c : Conduct) : (call : SeatCall) → Option call.Answer
  | .link _ => none
  | .phase p => some (c.phase p)
  | .report _ => some c.report
  | .role => some c.role
  | .outcome => some c.outcome

/-- What a rank does: it goes through its dialogue, or its node works on a call. -/
inductive Doing (α : Type) where
  | talking (d : Dialogue Seat α)
  | working (call : SeatCall) (next : call.Answer → Dialogue Seat α)

/-- What is remembered of a call of a node. -/
inductive Deed where
  | began (call : SeatCall)
  | ended (call : SeatCall)

structure Hand (α : Type) where
  doing : Doing α
  deeds : List Deed := []

structure Crew (C : Carrier) (α : Type) where
  carrier : C.State
  hand : Nat → Hand α

namespace Crew

variable {C : Carrier} {α : Type}

def start (t : C.State) (talk : Nat → Dialogue Seat α) : Crew C α :=
  ⟨t, fun r => { doing := .talking (talk r) }⟩

def put (n : Crew C α) (r : Nat) (t : C.State) (h : Hand α) : Crew C α :=
  ⟨t, Function.update n.hand r h⟩

@[simp] theorem put_hand (n : Crew C α) (r : Nat) (t : C.State) (h : Hand α) :
    (n.put r t h).hand r = h := by simp [put]

theorem put_hand_ne {n : Crew C α} {r q : Nat} {t : C.State} {h : Hand α} (hq : q ≠ r) :
    (n.put r t h).hand q = n.hand q := by simp [put, hq]

/-- A step of rank `r`: what becomes of the carrier and of the rank. -/
inductive Act (conduct : Conduct) (r : Nat) (t : C.State) (h : Hand α) : C.State → Hand α → Prop where
  | talk (call : LinkCall) (go : call.Answer → Dialogue Seat α) (a : call.Answer) (t' : C.State)
      (hd : h.doing = .talking (.ask (SeatCall.link call) go)) (ha : C.Answers t r call a t') :
    Act conduct r t h t' { h with doing := .talking (go a) }
  | begin (call : SeatCall) (next : call.Answer → Dialogue Seat α) (a : call.Answer)
      (hd : h.doing = .talking (.ask call next)) (ha : conduct.answer? call = some a) :
    Act conduct r t h t { doing := .working call next, deeds := h.deeds ++ [.began call] }
  | finish (call : SeatCall) (next : call.Answer → Dialogue Seat α) (a : call.Answer)
      (hd : h.doing = .working call next) (ha : conduct.answer? call = some a) :
    Act conduct r t h t { doing := .talking (next a), deeds := h.deeds ++ [.ended call] }

/-- A step of one of the ranks below `size` that are not missing. -/
def Step (size : Nat) (missing : Finset Nat) (conduct : Nat → Conduct) (n n' : Crew C α) : Prop :=
  ∃ r < size, r ∉ missing ∧ ∃ t' h', Act (conduct r) r n.carrier (n.hand r) t' h' ∧
    n' = n.put r t' h'

def Reaches (size : Nat) (missing : Finset Nat) (conduct : Nat → Conduct) :
    Crew C α → Crew C α → Prop :=
  Relation.ReflTransGen (Step size missing conduct)

def Done (n : Crew C α) (r : Nat) (a : α) : Prop := (n.hand r).doing = .talking (.done a)

/-- If call `second` of rank `r` has begun, then call `first` of rank `q` is over. -/
def Precedes (n : Crew C α) (q : Nat) (first : SeatCall) (r : Nat) (second : SeatCall) : Prop :=
  .began second ∈ (n.hand r).deeds → .ended first ∈ (n.hand q).deeds

end Crew

/-! ## Every run ends -/

inductive Doing.Follows {α : Type} : Doing α → Doing α → Prop where
  | talk (call : LinkCall) (go : call.Answer → Dialogue Seat α) (a : call.Answer) :
    Follows (.talking (go a)) (.talking (.ask (SeatCall.link call) go))
  | begin (call : SeatCall) (next : call.Answer → Dialogue Seat α) :
    Follows (.working call next) (.talking (.ask call next))
  | finish (call : SeatCall) (next : call.Answer → Dialogue Seat α) (a : call.Answer) :
    Follows (.talking (next a)) (.working call next)

namespace Doing

variable {α : Type}

theorem acc_working {call : SeatCall} {next : call.Answer → Dialogue Seat α}
    (hnext : ∀ a, Acc Follows (.talking (next a))) : Acc Follows (.working call next) := by
  constructor
  intro y hy
  cases hy with
  | finish _ _ a => exact hnext a

theorem acc_talking (d : Dialogue Seat α) : Acc Follows (.talking d) := by
  induction d with
  | done a => exact ⟨_, nofun⟩
  | ask call next ih =>
    constructor
    intro y hy
    cases hy with
    | talk _ _ a => exact ih a
    | begin _ _ => exact acc_working ih

theorem wellFounded_follows : WellFounded (Follows (α := α)) := by
  constructor
  intro x
  cases x with
  | talking d => exact acc_talking d
  | working call next => exact acc_working fun a => acc_talking (next a)

end Doing

namespace Crew

variable {C : Carrier} {α : Type} {size : Nat} {missing : Finset Nat} {conduct : Nat → Conduct}

theorem Act.follows {c : Conduct} {r : Nat} {t t' : C.State} {h h' : Hand α}
    (hact : Act c r t h t' h') : h'.doing.Follows h.doing := by
  cases hact with
  | talk call go a _ hd _ => exact hd ▸ .talk call go a
  | begin call next _ hd _ => exact hd ▸ .begin call next
  | finish call next a hd _ => exact hd ▸ .finish call next a

theorem wellFounded_step :
    WellFounded fun n' n : Crew C α => Step size missing conduct n n' := by
  refine Subrelation.wf ?_ (InvImage.wf (fun (n : Crew C α) q => (n.hand q).doing)
    (wellFounded_schedule size Doing.wellFounded_follows))
  rintro n' n ⟨r, hr, -, t', h', hact, rfl⟩
  refine ⟨r, hr, ?_, fun q hq => ?_⟩
  · simpa using hact.follows
  · simp only [put_hand_ne hq]

theorem exists_end {P : Crew C α → Prop} (n : Crew C α)
    (h : ∀ n', n.Reaches size missing conduct n' → (∃ n'', n'.Step size missing conduct n'') ∨ P n') :
    ∃ n', n.Reaches size missing conduct n' ∧ P n' :=
  exists_end_of_wellFounded wellFounded_step n h

end Crew

end Lagmeter
