import Lagmeter.Group.Link

/-!
# Carriers

What joins the ranks of a group answers the calls of the ranks. Two properties of a carrier matter
here. A carrier that `Conveys` brings frames from one rank to another in order, each at most once,
and may fail at any call. A faithful one also loses nothing: it does what `Lines` do, a queue
from every rank to every other, and fails only where an end is closed.
-/

namespace Lagmeter

/-- What answers the calls of the ranks. A call without an answer has to wait. -/
structure Carrier where
  State : Type
  Answers : State → (rank : Nat) → (call : LinkCall) → call.Answer → State → Prop

/-! ## Lines -/

/-- The frames on their way from each rank to each other, and who has not closed. -/
structure Lines where
  queue : (sender receiver : Nat) → List Frame
  isOpen : Nat → Bool

namespace Lines

/-- Nothing is on its way between `size` ranks, and all of them take part. -/
def Fresh (size : Nat) (l : Lines) : Prop :=
  ∀ a < size, l.isOpen a = true ∧ ∀ b < size, l.queue a b = []

def push (l : Lines) (sender receiver : Nat) (f : Frame) : Lines :=
  { l with queue := fun a b =>
      if a = sender ∧ b = receiver then l.queue a b ++ [f] else l.queue a b }

def pop (l : Lines) (sender receiver : Nat) : Lines :=
  { l with queue := fun a b =>
      if a = sender ∧ b = receiver then (l.queue a b).tail else l.queue a b }

def shut (l : Lines) (rank : Nat) : Lines :=
  { l with isOpen := fun a => if a = rank then false else l.isOpen a }

theorem queue_push_self (l : Lines) (a b : Nat) (f : Frame) :
    (l.push a b f).queue a b = l.queue a b ++ [f] := by simp [push]

theorem queue_push_of_ne {l : Lines} {a b x y : Nat} {f : Frame} (h : ¬ (x = a ∧ y = b)) :
    (l.push a b f).queue x y = l.queue x y := by simp only [push, if_neg h]

theorem queue_pop_self (l : Lines) (a b : Nat) : (l.pop a b).queue a b = (l.queue a b).tail := by
  simp [pop]

theorem queue_pop_of_ne {l : Lines} {a b x y : Nat} (h : ¬ (x = a ∧ y = b)) :
    (l.pop a b).queue x y = l.queue x y := by simp only [pop, if_neg h]

/-- What lines between `size` ranks answer to a call of a rank, and what becomes of them. -/
inductive Allows (size : Nat) (l : Lines) (rank : Nat) :
    (call : LinkCall) → call.Answer → Lines → Prop where
  | sent (peer : Nat) (f : Frame) (hpeer : peer < size ∧ peer ≠ rank)
      (hopen : l.isOpen rank = true ∧ l.isOpen peer = true) :
    Allows size l rank (.send peer f) (.ok ()) (l.push rank peer f)
  | unsent (peer : Nat) (f : Frame) (e : GroupError)
      (h : ¬ (peer < size ∧ peer ≠ rank) ∨ l.isOpen rank = false ∨ l.isOpen peer = false) :
    Allows size l rank (.send peer f) (.error e) l
  /-- A frame for a rank that has closed may vanish without a word. -/
  | lost (peer : Nat) (f : Frame) (h : l.isOpen peer = false) :
    Allows size l rank (.send peer f) (.ok ()) l
  | received (peer : Nat) (f : Frame) (hpeer : peer < size ∧ peer ≠ rank)
      (hopen : l.isOpen rank = true) (hf : (l.queue peer rank).head? = some f) :
    Allows size l rank (.receive peer) (.ok f) (l.pop peer rank)
  | bereft (peer : Nat) (e : GroupError)
      (h : ¬ (peer < size ∧ peer ≠ rank) ∨ l.isOpen rank = false ∨
        (l.queue peer rank = [] ∧ l.isOpen peer = false)) :
    Allows size l rank (.receive peer) (.error e) l
  | closed (a : Except GroupError Unit) : Allows size l rank .close a (l.shut rank)
  | left : Allows size l rank .leave () (l.shut rank)
  | told (event : Event) : Allows size l rank (.log event) () l

/-- A call is answered unless it has to wait for a frame of a rank that has not closed. -/
theorem allows_or_waits (l : Lines) (size rank : Nat) (call : LinkCall) :
    (∃ a l', l.Allows size rank call a l') ∨ ∃ peer, call = .receive peer ∧ peer < size ∧
      l.queue peer rank = [] ∧ l.isOpen peer = true := by
  cases call with
  | send peer f =>
    refine .inl ?_
    by_cases hpeer : peer < size ∧ peer ≠ rank
    · by_cases hopen : l.isOpen rank = true ∧ l.isOpen peer = true
      · exact ⟨_, _, .sent peer f hpeer hopen⟩
      · refine ⟨_, _, .unsent peer f (.disconnected peer) (.inr ?_)⟩
        rw [← Bool.and_eq_false_iff, ← Bool.not_eq_true, Bool.and_eq_true]
        exact hopen
    · exact ⟨_, _, .unsent peer f (.disconnected peer) (.inl hpeer)⟩
  | receive peer =>
    by_cases hpeer : peer < size ∧ peer ≠ rank
    · cases hrank : l.isOpen rank with
      | false => exact .inl ⟨_, _, .bereft peer (.disconnected peer) (.inr (.inl hrank))⟩
      | true =>
        cases hq : l.queue peer rank with
        | cons f frames => exact .inl ⟨_, _, .received peer f hpeer hrank (by rw [hq]; rfl)⟩
        | nil =>
          cases hopen : l.isOpen peer with
          | false => exact .inl ⟨_, _, .bereft peer (.disconnected peer) (.inr (.inr ⟨hq, hopen⟩))⟩
          | true => exact .inr ⟨peer, rfl, hpeer.1, hq, hopen⟩
    · exact .inl ⟨_, _, .bereft peer (.disconnected peer) (.inl hpeer)⟩
  | close => exact .inl ⟨_, _, .closed (.ok ())⟩
  | leave => exact .inl ⟨_, _, .left⟩
  | log event => exact .inl ⟨_, _, .told event⟩

end Lines

namespace Carrier

/-- A carrier does what its lines allow, and answers whenever they do. -/
structure Faithful (C : Carrier) (size : Nat) (lines : C.State → Lines) : Prop where
  sound : ∀ {t t' : C.State} {rank : Nat} {call : LinkCall} {a : call.Answer}, rank < size →
    C.Answers t rank call a t' → (lines t).Allows size rank call a (lines t')
  live : ∀ {t : C.State} {rank : Nat} {call : LinkCall} {a : call.Answer} {l : Lines}, rank < size →
    (lines t).Allows size rank call a l → ∃ b t', C.Answers t rank call b t'

/-- What may be on its way from one rank to another after a call. -/
def Carried (before : Nat → Nat → List Frame) (rank : Nat) :
    (call : LinkCall) → call.Answer → (after : Nat → Nat → List Frame) → Prop
  | .send peer f, _, after => ∀ a b, (after a b).Sublist
      (if a = rank ∧ b = peer then before a b ++ [f] else before a b)
  | .receive peer, .ok f, after => (f :: after peer rank).Sublist (before peer rank) ∧
      ∀ a b, (after a b).Sublist (before a b)
  | _, _, after => ∀ a b, (after a b).Sublist (before a b)

/-- A carrier brings frames in the order in which they were sent, each at most once. Any call may
fail, and frames may be lost. -/
def Conveys (C : Carrier) (size : Nat) (transit : C.State → Nat → Nat → List Frame) : Prop :=
  ∀ {t t' : C.State} {rank : Nat} {call : LinkCall} {a : call.Answer}, rank < size →
    C.Answers t rank call a t' → Carried (transit t) rank call a (transit t')

variable {before after : Nat → Nat → List Frame} {rank : Nat}

theorem Carried.mem {call : LinkCall} {a : call.Answer} (h : Carried before rank call a after)
    {x y : Nat} {f : Frame} (hf : f ∈ after x y) :
    f ∈ before x y ∨ x = rank ∧ call = .send y f := by
  cases call with
  | send peer f' =>
    have hmem := (h x y).subset hf
    split at hmem <;> rename_i hxy
    · obtain ⟨rfl, rfl⟩ := hxy
      rcases List.mem_append.mp hmem with hmem | hmem
      · exact .inl hmem
      · rw [List.mem_singleton.mp hmem]
        exact .inr ⟨rfl, rfl⟩
    · exact .inl hmem
  | receive peer =>
    cases a with
    | ok f' => exact .inl ((h.2 x y).subset hf)
    | error e => exact .inl ((h x y).subset hf)
  | close => exact .inl ((h x y).subset hf)
  | leave => exact .inl ((h x y).subset hf)
  | log event => exact .inl ((h x y).subset hf)

theorem Carried.received {peer : Nat} {f : Frame}
    (h : Carried before rank (.receive peer) (.ok f) after) : f ∈ before peer rank :=
  h.1.subset List.mem_cons_self

theorem carried_of_allows {size : Nat} {l l' : Lines} {call : LinkCall} {a : call.Answer}
    (h : l.Allows size rank call a l') : Carried l.queue rank call a l'.queue := by
  cases h with
  | sent peer f _ _ => exact fun _ _ => List.Sublist.refl _
  | unsent peer f e _ =>
    intro x y
    split
    · exact List.sublist_append_left _ _
    · exact List.Sublist.refl _
  | lost peer f _ =>
    intro x y
    split
    · exact List.sublist_append_left _ _
    · exact List.Sublist.refl _
  | received peer f _ _ hf =>
    obtain ⟨frames, hframes⟩ := List.head?_eq_some_iff.mp hf
    refine ⟨?_, fun x y => ?_⟩
    · simp [Lines.pop, hframes]
    · simp only [Lines.pop]
      split
      · exact List.tail_sublist _
      · exact List.Sublist.refl _
  | bereft _ _ _ => exact fun _ _ => List.Sublist.refl _
  | closed _ => exact fun _ _ => List.Sublist.refl _
  | left => exact fun _ _ => List.Sublist.refl _
  | told _ => exact fun _ _ => List.Sublist.refl _

theorem Faithful.conveys {C : Carrier} {size : Nat} {lines : C.State → Lines}
    (h : C.Faithful size lines) : C.Conveys size fun t => (lines t).queue :=
  fun hr ha => carried_of_allows (h.sound hr ha)

end Carrier

end Lagmeter
