import Lagmeter.Proofs.Crew.Basic
import Lagmeter.Proofs.Group.Reference

/-!
# Courses

The course of a rank is what can be seen of its way through a dialogue: the calls of its node and
the requests to its group, in their order. What it says besides is not seen. For every request the
course foretells what it gives, or that it fails. `Goes` is about one rank, whatever the others do:
as long as its requests give what is foretold, its dialogue goes along the course.
-/

namespace Lagmeter

/-! ## Seats and links -/

namespace Seat

variable {α β : Type}

theorem link_bind (d : Dialogue Link α) (f : α → Dialogue Link β) :
    link (d.bind f) = (link d).bind fun a => link (f a) := by
  induction d with
  | done a => rfl
  | ask call next ih => exact congrArg (Dialogue.ask (I := Seat) _) (funext fun a => ih a)

end Seat

/-! ## Courses -/

structure Ask where
  request : Request
  /-- What it gives, or nothing if it fails. -/
  due : Option Yield

/-- The request of rank `r`, where rank `q` makes the request `all q`, and what it gives. -/
def Ask.ofRank (whole : Bool) (size : Nat) (all : Nat → Request) (r : Nat) : Ask :=
  ⟨all r, if whole then some ((all r).reference size all r) else none⟩

/-- A request gave what was foretold. -/
def Ask.Met (a : Ask) (x : Except GroupError Yield) : Prop :=
  match a.due with
  | some y => x = .ok y
  | none => ∃ e, x = .error e

inductive Item where
  | call (call : SeatCall)
  | ask (ask : Ask)

abbrev Course := List Item

namespace Course

def calls (c : Course) : List SeatCall :=
  c.filterMap fun
    | .call call => some call
    | .ask _ => none

def asks (c : Course) : List Ask :=
  c.filterMap fun
    | .call _ => none
    | .ask ask => some ask

@[simp] theorem calls_nil : calls [] = [] := rfl

@[simp] theorem calls_call (call : SeatCall) (c : Course) :
    calls (.call call :: c) = call :: calls c := rfl

@[simp] theorem calls_ask (ask : Ask) (c : Course) : calls (.ask ask :: c) = calls c := rfl

@[simp] theorem calls_append (c d : Course) : calls (c ++ d) = calls c ++ calls d :=
  List.filterMap_append

@[simp] theorem asks_nil : asks [] = [] := rfl

@[simp] theorem asks_call (call : SeatCall) (c : Course) : asks (.call call :: c) = asks c := rfl

@[simp] theorem asks_ask (ask : Ask) (c : Course) : asks (.ask ask :: c) = ask :: asks c := rfl

@[simp] theorem asks_append (c d : Course) : asks (c ++ d) = asks c ++ asks d :=
  List.filterMap_append

theorem calls_map_ask {β : Type} (f : β → Ask) (bs : List β) :
    calls (bs.map fun b => .ask (f b)) = [] := by
  induction bs with
  | nil => rfl
  | cons b bs ih => rw [List.map_cons, calls_ask, ih]

theorem asks_map_ask {β : Type} (f : β → Ask) (bs : List β) :
    asks (bs.map fun b => .ask (f b)) = bs.map f := by
  induction bs with
  | nil => rfl
  | cons b bs ih => rw [List.map_cons, asks_ask, ih, List.map_cons]

end Course

def deedsOf (calls : List SeatCall) : List Deed := calls.flatMap fun call => [.began call, .ended call]

theorem deedsOf_append (calls calls' : List SeatCall) :
    deedsOf (calls ++ calls') = deedsOf calls ++ deedsOf calls' := List.flatMap_append

theorem began_mem_deedsOf {call : SeatCall} {calls : List SeatCall} :
    .began call ∈ deedsOf calls ↔ call ∈ calls := by simp [deedsOf]

theorem ended_mem_deedsOf {call : SeatCall} {calls : List SeatCall} :
    .ended call ∈ deedsOf calls ↔ call ∈ calls := by simp [deedsOf]

/-! ## Going along a course -/

variable {α β : Type}

/-- The dialogue, which comes after exchange number `k`, goes along the course, and `post` holds in the end.
-/
inductive Goes (m : Member) (conduct : Conduct) (post : Nat → α → Prop) :
    Course → (k : Nat) → Dialogue Seat α → Prop where
  | done (k : Nat) (a : α) (h : post k a) : Goes m conduct post [] k (.done a)
  | log (e : Event) (next : Unit → Dialogue Seat α) (course : Course) (k : Nat)
      (h : Goes m conduct post course k (next ())) :
    Goes m conduct post course k (.ask (SeatCall.link (.log e)) next)
  | call (call : SeatCall) (a : call.Answer) (next : call.Answer → Dialogue Seat α)
      (course : Course) (k : Nat) (ha : conduct.answer? call = some a)
      (h : Goes m conduct post course k (next a)) :
    Goes m conduct post (.call call :: course) k (.ask call next)
  | ask (ask : Ask) (next : Except GroupError Payload × Nat → Dialogue Seat α) (course : Course)
      (k : Nat)
      (h : ∀ x : Except GroupError Payload, ask.Met (x.bind (ask.request.finish m)) →
        Goes m conduct post course (k + 1) (next (x, k + 1))) :
    Goes m conduct post (.ask ask :: course) k
      ((Seat.link ((ask.request.offer m).dialogue m k)).bind next)

namespace Goes

variable {m : Member} {conduct : Conduct} {post : Nat → α → Prop} {post' : Nat → β → Prop}
  {course course' : Course} {k : Nat} {d : Dialogue Seat α}

theorem bind {f : α → Dialogue Seat β} (h : Goes m conduct post course k d)
    (hf : ∀ k a, post k a → Goes m conduct post' course' k (f a)) :
    Goes m conduct post' (course ++ course') k (d.bind f) := by
  induction h with
  | done k a ha => exact hf k a ha
  | log e next _ k _ ih => exact .log e _ _ k ih
  | call call a next _ k ha _ ih => exact .call call a _ _ k ha ih
  | ask ask next _ k _ ih =>
    rw [Dialogue.bind_assoc]
    exact .ask ask _ _ k fun x hx => ih x hx

theorem mono {post' : Nat → α → Prop} (h : Goes m conduct post course k d)
    (hpost : ∀ k a, post k a → post' k a) : Goes m conduct post' course k d := by
  induction h with
  | done k a ha => exact .done k a (hpost k a ha)
  | log e next _ k _ ih => exact .log e next _ k ih
  | call call a next _ k ha _ ih => exact .call call a next _ k ha ih
  | ask ask next _ k _ ih => exact .ask ask next _ k ih

end Goes

end Lagmeter
