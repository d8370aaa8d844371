import Lagmeter.Node.Work
import Lagmeter.Proofs.Cycle.Deliveries

/-!
# Ledgers

All numbers that a writer and its readers keep come from what was published and from the clock. A
dialogue is judged on what it makes of these two, whatever happens to them between its calls.
-/

namespace Lagmeter

namespace Delivery

theorem recorded_set {times : List Nat} {i : Nat} (hi : i < times.length) (time v : Nat) :
    recorded (times.set i time) v = if v = i then time else recorded times v := by
  rw [recorded, recorded, List.getD_eq_getElem?_getD, List.getD_eq_getElem?_getD]
  by_cases hv : v = i
  · rw [if_pos hv, hv, List.getElem?_set_self hi]
    rfl
  · rw [if_neg hv, List.getElem?_set_ne (Ne.symm hv)]

theorem recorded_replicate (n v : Nat) : recorded (List.replicate n 0) v = 0 := by
  rw [recorded, List.getD_eq_getElem?_getD, List.getElem?_replicate]
  split <;> rfl

end Delivery

/-- The samples that were published, the oldest first, and what the clock shows. -/
structure Ledger where
  published : List Sample := []
  wall : Nat

namespace Ledger

def publish (l : Ledger) (p : Sample) : Ledger := { l with published := l.published ++ [p] }

/-- Versions rise up to a limit. The clock is positive, and every sample has a time that has come. -/
structure Sound (limit : Nat) (l : Ledger) : Prop where
  rising : l.published.Pairwise fun (p q : Sample) => p.version < q.version
  bounded : ∀ p ∈ l.published, p.version ≤ limit
  timely : ∀ p ∈ l.published, 0 < p.writtenAt ∧ p.writtenAt ≤ l.wall
  started : 0 < l.wall

theorem Sound.later {limit : Nat} {l l' : Ledger} (h : l.Sound limit)
    (hpublished : l'.published = l.published) (hwall : l.wall ≤ l'.wall) : l'.Sound limit where
  rising := hpublished ▸ h.rising
  bounded := hpublished ▸ h.bounded
  timely p hp := by
    obtain ⟨hpositive, hwritten⟩ := h.timely p (hpublished ▸ hp)
    exact ⟨hpositive, Nat.le_trans hwritten hwall⟩
  started := Nat.lt_of_lt_of_le h.started hwall

/-- When a version was written, or zero if it was not. -/
def timeOf (published : List Sample) (version : Nat) : Nat :=
  (published.find? fun p => p.version = version).elim 0 Sample.writtenAt

/-! ## The times of versions -/

section

variable {published more : List Sample} {p : Sample} {version : Nat}

theorem timeOf_append_of_ne (h : p.version ≠ version) :
    timeOf (published ++ [p]) version = timeOf published version := by
  rw [timeOf, List.find?_append, List.find?_cons_of_neg (by simpa using h), List.find?_nil,
    Option.or_none]
  rfl

theorem timeOf_append_self (h : ∀ q ∈ published, q.version ≠ p.version) :
    timeOf (published ++ [p]) p.version = p.writtenAt := by
  have hnone : published.find? (fun q => q.version = p.version) = none := by
    simpa using h
  rw [timeOf, List.find?_append, hnone, Option.none_or, List.find?_cons_of_pos (by simp)]
  rfl

theorem timeOf_of_mem (hrising : published.Pairwise fun (p q : Sample) => p.version < q.version)
    (hp : p ∈ published) : timeOf published p.version = p.writtenAt := by
  obtain ⟨before, behind, rfl⟩ := List.append_of_mem hp
  have hbefore := (List.pairwise_append.mp hrising).2.2
  have hnone : before.find? (fun q => q.version = p.version) = none := by
    simp only [List.find?_eq_none, decide_eq_true_eq]
    exact fun q hq => Nat.ne_of_lt (hbefore q hq p List.mem_cons_self)
  rw [timeOf, List.find?_append, hnone, Option.none_or, List.find?_cons_of_pos (by simp)]
  rfl

end

/-! ## Answers -/

/-- What a call may be answered. -/
def Allows (l : Ledger) : (call : WorkCall) → call.Answer → Prop
  | .wallClock, (time : Nat) => time = l.wall
  | .store .observe, (found : Except StoreError (Option Sample)) =>
    ∀ p, found = .ok (some p) → p.version = 0 ∨ p ∈ l.published
  | _, _ => True

def after (l : Ledger) : (call : WorkCall) → call.Answer → Ledger
  | .store (.publish p), (.ok () : Except StoreError Unit) => l.publish p
  | _, _ => l

end Ledger

/-! ## Terms -/

/-- The terms on which a dialogue works: what happens to the ledger between its calls, and which
calls it may make. -/
structure Terms where
  drift : Ledger → Ledger → Prop
  asks : Ledger → WorkCall → Prop

namespace Dialogue

variable {α β : Type} {t : Terms} {P : Ledger → α → Prop} {Q : Ledger → β → Prop} {l l' : Ledger}

/-- On these terms, the dialogue makes only calls that it may make, and what it comes to fits the
ledger. -/
def Keeps (t : Terms) (P : Ledger → α → Prop) : Ledger → Dialogue Work α → Prop
  | l, .done a => P l a
  | l, .ask call next => ∀ l', t.drift l l' →
    t.asks l' call ∧ ∀ a, l'.Allows call a → Keeps t P (l'.after call a) (next a)

theorem Keeps.bind {d : Dialogue Work α} {f : α → Dialogue Work β} (h : d.Keeps t P l)
    (hf : ∀ l a, P l a → (f a).Keeps t Q l) : (d.bind f).Keeps t Q l := by
  induction d generalizing l with
  | done a => exact hf l a h
  | ask call next ih =>
    intro l' hdrift
    obtain ⟨hasks, hnext⟩ := h l' hdrift
    exact ⟨hasks, fun a ha => ih a (hnext a ha)⟩

theorem Keeps.drift {d : Dialogue Work α} (h : d.Keeps t P l)
    (htrans : ∀ l₁ l₂ l₃, t.drift l₁ l₂ → t.drift l₂ l₃ → t.drift l₁ l₃)
    (hP : ∀ a, P l a → P l' a) (hdrift : t.drift l l') : d.Keeps t P l' := by
  cases d with
  | done a => exact hP a h
  | ask call next => exact fun l'' hdrift' => h l'' (htrans _ _ _ hdrift hdrift')

end Dialogue

end Lagmeter
