/-!
# Dialogues

A dialogue is a program that asks its surroundings for everything it does not compute: it is done,
or it makes a call and goes on with the answer. What answers the calls is not part of it, so one
program runs in a test, in a group of many and in a proof.
-/

namespace Lagmeter

/-- The calls a program may make, and what answers each of them. -/
structure Interface where
  Call : Type
  Answer : Call → Type

inductive Dialogue (I : Interface) (α : Type) where
  | done (a : α)
  | ask (call : I.Call) (next : I.Answer call → Dialogue I α)

namespace Dialogue

variable {I J : Interface} {α β : Type}

def bind (d : Dialogue I α) (f : α → Dialogue I β) : Dialogue I β :=
  match d with
  | .done a => f a
  | .ask call next => .ask call fun answer => (next answer).bind f

instance : Monad (Dialogue I) where
  pure := .done
  bind := bind

def call (c : I.Call) : Dialogue I (I.Answer c) := .ask c .done

theorem bind_done (d : Dialogue I α) : d.bind .done = d := by
  induction d with
  | done a => rfl
  | ask c next ih => simp only [bind, ih]

theorem bind_assoc {γ : Type} (d : Dialogue I α) (f : α → Dialogue I β) (g : β → Dialogue I γ) :
    (d.bind f).bind g = d.bind fun a => (f a).bind g := by
  induction d with
  | done a => rfl
  | ask c next ih => simp only [bind, ih]

instance : LawfulMonad (Dialogue I) :=
  LawfulMonad.mk' _ bind_done (fun _ _ => rfl) bind_assoc

def lift (embed : I.Call → J.Call) (answer : (c : I.Call) → J.Answer (embed c) → I.Answer c) :
    Dialogue I α → Dialogue J α
  | .done a => .done a
  | .ask c next => .ask (embed c) fun a => (next (answer c a)).lift embed answer

end Dialogue

end Lagmeter
