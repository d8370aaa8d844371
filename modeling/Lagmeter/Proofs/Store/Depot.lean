import Lagmeter.Proofs.Store.Book
import Lagmeter.Proofs.Store.View

/-!
# Depots

A depot is a replicated structure with its dispatcher and everyone who uses it. All that goes on there
is cut into small moves, which come in any order: a change or the marker of a flush is queued, a
listener comes or leaves, and the dispatcher applies a change, looks who is registered, calls one of
them or answers a flush. What happened so far is written down beside the replica.
-/

namespace Lagmeter

/-- How far the dispatcher is with telling of a change that it applied. -/
inductive Notice where
  /-- There is nothing to tell. -/
  | quiet
  /-- It still has to look who is registered. -/
  | due
  /-- It looked when the book was this, called some and still has to call the others. -/
  | calling (book : Book) (told left : List (Nat × Nat))
  deriving DecidableEq

def Notice.Over : Notice → Prop
  | .quiet => True
  | .due => False
  | .calling _ _ left => left = []

instance : (n : Notice) → Decidable n.Over
  | .quiet => isTrue trivial
  | .due => isFalse id
  | .calling _ _ left => inferInstanceAs (Decidable (left = []))

structure Flush where
  /-- The changes that were submitted when it was called. -/
  before : Nat
  /-- The changes that were submitted when its marker was queued. -/
  mark : Option Nat := none
  ended : Bool := false
  deriving DecidableEq

/-- What happened to a structure. -/
structure Annals (s : Structure) where
  /-- The changes in the order of their submission, each with its moment. -/
  submitted : List (s.Change × Nat) := []
  applied : Nat := 0
  /-- When a change was applied. -/
  moments : Nat → Nat := fun _ => 0
  notices : Nat → Notice := fun _ => .quiet
  flushes : List Flush := []
  book : Book := []

structure Depot (s : Structure) extends Annals s where
  replica : Replica s := {}

/-- A flush that is waited for comes to what the steps of the dispatcher come to. -/
theorem Replica.flush_of_advance? {s : Structure} {r r' : Replica s} {now : Nat} {told : List Nat}
    (h : r.advance? now = some (r', told)) : r.flush = (r'.flush.1, told ++ r'.flush.2) := by
  unfold advance? at h
  split at h
  case h_1 => cases h
  case h_2 c rest hqueue =>
    split at h
    case isFalse => cases h
    case isTrue =>
      cases h
      rw [flush, hqueue]
      rfl

namespace Depot

variable {s : Structure}

inductive Move (s : Structure) where
  /-- Queues a change, with the moment that the clock showed before. -/
  | submit (c : s.Change) (moment : Nat)
  | flush
  /-- Queues the marker of a flush that was called. -/
  | mark (i : Nat)
  /-- The dispatcher comes to the marker of a flush, which returns. -/
  | answer (i : Nat)
  | apply
  | look
  | call
  | listen (who : Nat)
  | unlisten (number : Nat)

/-- The moves of the dispatcher. All others are those of users. -/
def Move.Dispatches : Move s → Prop
  | .answer _ | .apply | .look | .call => True
  | _ => False

/-- The dispatcher has done all about the change that it applied last. -/
def Idle (d : Depot s) : Prop := (d.notices (d.applied - 1)).Over

instance (d : Depot s) : Decidable d.Idle := inferInstanceAs (Decidable (Notice.Over _))

/-- No marker stands before the next change in the queue. -/
def Unmarked (d : Depot s) : Prop := ∀ f ∈ d.flushes, f.mark = some d.applied → f.ended = true

instance (d : Depot s) : Decidable d.Unmarked :=
  inferInstanceAs (Decidable (∀ f ∈ d.flushes, f.mark = some d.applied → f.ended = true))

def setNotice (d : Depot s) (n : Notice) : Depot s :=
  { d with notices := Function.update d.notices (d.applied - 1) n }

/-- The depot after the dispatcher applied a change, and the replica is this. -/
def advance (d : Depot s) (now : Nat) (tells : Bool) (replica : Replica s) : Depot s :=
  { d with
    replica
    applied := d.applied + 1
    moments := Function.update d.moments d.applied now
    notices := Function.update d.notices d.applied (if tells then .due else .quiet) }

def act (delay : Span) (now : Nat) (d : Depot s) : Move s → Option (Depot s)
  | .submit c moment => if moment ≤ now then
      some { d with
        replica := d.replica.submit moment delay c, submitted := d.submitted ++ [(c, moment)] }
    else none
  | .flush => some { d with flushes := d.flushes ++ [{ before := d.submitted.length }] }
  | .mark i => match d.flushes[i]? with
    | some ⟨before, none, false⟩ =>
      some { d with flushes := d.flushes.set i ⟨before, some d.submitted.length, false⟩ }
    | _ => none
  | .answer i => match d.flushes[i]? with
    | some ⟨before, some mark, false⟩ => if d.Idle ∧ mark = d.applied then
        some { d with flushes := d.flushes.set i ⟨before, some mark, true⟩ }
      else none
    | _ => none
  | .apply => if d.Idle ∧ d.Unmarked then
      match d.replica.queue, d.replica.advance? now with
      | c :: _, some (replica, _) =>
        some (d.advance now (s.applied d.replica.contents c.change).2 replica)
      | _, _ => none
    else none
  | .look => match d.notices (d.applied - 1) with
    | .due => some (d.setNotice (.calling d.book [] d.replica.listeners))
    | _ => none
  | .call => match d.notices (d.applied - 1) with
    | .calling book told (x :: left) => some (d.setNotice (.calling book (told ++ [x]) left))
    | _ => none
  | .listen who =>
    let (number, replica) := d.replica.listen who
    some { d with replica, book := .came number who :: d.book }
  | .unlisten number =>
    let (removed, replica) := d.replica.unlisten number
    some { d with replica, book := .left number removed :: d.book }

/-- What a move does to a depot. -/
inductive Turn (delay : Span) (now : Nat) (d : Depot s) : Move s → Depot s → Prop where
  | submit (c : s.Change) (moment : Nat) (h : moment ≤ now) :
    Turn delay now d (.submit c moment) { d with
      replica := d.replica.submit moment delay c, submitted := d.submitted ++ [(c, moment)] }
  | flush : Turn delay now d .flush
      { d with flushes := d.flushes ++ [{ before := d.submitted.length }] }
  | mark (i before : Nat) (h : d.flushes[i]? = some ⟨before, none, false⟩) :
    Turn delay now d (.mark i)
      { d with flushes := d.flushes.set i ⟨before, some d.submitted.length, false⟩ }
  | answer (i before : Nat) (hidle : d.Idle)
      (h : d.flushes[i]? = some ⟨before, some d.applied, false⟩) :
    Turn delay now d (.answer i)
      { d with flushes := d.flushes.set i ⟨before, some d.applied, true⟩ }
  | apply (c : Submitted s) (rest : List (Submitted s)) (hidle : d.Idle) (hunmarked : d.Unmarked)
      (hqueue : d.replica.queue = c :: rest) (hdue : c.due ≤ now) :
    Turn delay now d .apply (d.advance now (s.applied d.replica.contents c.change).2
      { d.replica with contents := (s.applied d.replica.contents c.change).1, queue := rest })
  | look (h : d.notices (d.applied - 1) = .due) :
    Turn delay now d .look (d.setNotice (.calling d.book [] d.replica.listeners))
  | call (book : Book) (x : Nat × Nat) (told left : List (Nat × Nat))
      (h : d.notices (d.applied - 1) = .calling book told (x :: left)) :
    Turn delay now d .call (d.setNotice (.calling book (told ++ [x]) left))
  | listen (who : Nat) : Turn delay now d (.listen who)
      { d with
        replica := (d.replica.listen who).2, book := .came (d.replica.listen who).1 who :: d.book }
  | unlisten (number : Nat) : Turn delay now d (.unlisten number)
      { d with
        replica := (d.replica.unlisten number).2
        book := .left number (d.replica.unlisten number).1 :: d.book }

variable {delay : Span} {now : Nat} {d d' : Depot s} {m : Move s}

theorem turn_of_act (h : d.act delay now m = some d') : d.Turn delay now m d' := by
  cases m with
  | submit c moment =>
    simp only [act] at h
    split at h
    case isTrue hle =>
      cases h
      exact .submit c moment hle
    case isFalse => cases h
  | flush =>
    cases h
    exact .flush
  | mark i =>
    simp only [act] at h
    split at h
    case h_1 before hflush =>
      cases h
      exact .mark i before hflush
    case h_2 => cases h
  | answer i =>
    simp only [act] at h
    split at h
    case h_1 before mark hflush =>
      split at h
      case isTrue hready =>
        obtain ⟨hidle, rfl⟩ := hready
        cases h
        exact .answer i before hidle hflush
      case isFalse => cases h
    case h_2 => cases h
  | apply =>
    simp only [act] at h
    split at h
    case isFalse => cases h
    case isTrue hready =>
      split at h
      case h_2 => cases h
      case h_1 c rest replica told hqueue hadvance =>
        cases h
        unfold Replica.advance? at hadvance
        rw [hqueue] at hadvance
        by_cases hdue : c.due ≤ now
        · simp only [if_pos hdue, Option.some.injEq] at hadvance
          cases hadvance
          exact .apply c rest hready.1 hready.2 hqueue hdue
        · simp only [if_neg hdue] at hadvance
          cases hadvance
  | look =>
    simp only [act] at h
    split at h
    case h_1 hdue =>
      cases h
      exact .look hdue
    case h_2 => cases h
  | call =>
    simp only [act] at h
    split at h
    case h_1 book told x left hcalling =>
      cases h
      exact .call book x told left hcalling
    case h_2 => cases h
  | listen who =>
    cases h
    exact .listen who
  | unlisten number =>
    cases h
    exact .unlisten number

end Depot

end Lagmeter
