import Lagmeter.Store.Replica
import Mathlib.Data.List.Nodup

/-!
# Registrations

Who is registered with a structure follows from who came and who left. The listeners of a replica are
those, each of them once, and its answer to a removal says whether there was something to remove.
-/

namespace Lagmeter

/-- A call that registers a listener or removes one, with its answer. -/
inductive Book.Entry where
  | came (number who : Nat)
  | left (number : Nat) (removed : Bool)
  deriving DecidableEq, Repr

/-- The calls of a structure, the last one first. -/
abbrev Book := List Book.Entry

namespace Book

/-- A listener is registered under a number if it came under it and was not removed since. -/
def Registered : Book → Nat × Nat → Prop
  | [], _ => False
  | .came number who :: earlier, x => x = (number, who) ∨ Registered earlier x
  | .left number _ :: earlier, x => x.1 ≠ number ∧ Registered earlier x

/-- Each listener that is registered, once. -/
structure Lists (b : Book) (listeners : List (Nat × Nat)) : Prop where
  nodup : (listeners.map Prod.fst).Nodup
  mem_iff : ∀ x, x ∈ listeners ↔ b.Registered x

/-- Numbers are given out once, and a removal says whether a listener was registered. -/
def Sound : Book → Prop
  | [] => True
  | .came number _ :: earlier => (∀ who, .came number who ∉ earlier) ∧ Sound earlier
  | .left number removed :: earlier =>
    (removed = true ↔ ∃ who, Registered earlier (number, who)) ∧ Sound earlier

variable {b earlier : Book} {number who : Nat} {removed : Bool}

theorem came_of_registered {x : Nat × Nat} (h : b.Registered x) : .came x.1 x.2 ∈ b := by
  induction b with
  | nil => exact h.elim
  | cons c earlier ih =>
    cases c with
    | came number who =>
      rcases h with rfl | h
      · exact List.mem_cons_self
      · exact List.mem_cons_of_mem _ (ih h)
    | left number removed => exact List.mem_cons_of_mem _ (ih h.2)

end Book

/-! ## Replicas -/

namespace Replica

variable {s : Structure} {r : Replica s} {b : Book} {who number : Nat}

/-- The replica lists who is registered, and no number is ahead of those given out. -/
structure Lists (r : Replica s) (b : Book) : Prop where
  sound : b.Sound
  listed : b.Lists r.listeners
  issued : ∀ number who, .came number who ∈ b → number ≤ r.issued

theorem lists_new : (({} : Replica s).Lists [] : Prop) where
  sound := trivial
  listed := ⟨List.nodup_nil, fun _ => ⟨nofun, False.elim⟩⟩
  issued := nofun

theorem Lists.listen (h : r.Lists b) (who : Nat) :
    (r.listen who).2.Lists (.came (r.listen who).1 who :: b) := by
  have hfresh : ∀ who', .came (r.issued + 1) who' ∉ b := fun who' hcame =>
    Nat.not_succ_le_self _ (h.issued _ _ hcame)
  have hnew : r.issued + 1 ∉ r.listeners.map Prod.fst := by
    intro hmem
    obtain ⟨x, hx, hnumber⟩ := List.mem_map.mp hmem
    exact hfresh x.2 (hnumber ▸ Book.came_of_registered ((h.listed.mem_iff x).mp hx))
  constructor
  case sound => exact ⟨hfresh, h.sound⟩
  case listed =>
    refine ⟨?_, fun x => ?_⟩
    · show ((r.listeners ++ [(r.issued + 1, who)]).map Prod.fst).Nodup
      rw [List.map_append]
      exact List.concat_eq_append ▸ h.listed.nodup.concat hnew
    · show x ∈ r.listeners ++ [(r.issued + 1, who)] ↔ x = (r.issued + 1, who) ∨ b.Registered x
      rw [List.mem_append, List.mem_singleton, h.listed.mem_iff, or_comm]
  case issued =>
    intro number who' hcame
    rcases List.mem_cons.mp hcame with heq | hold
    · cases heq
      exact Nat.le_refl _
    · exact Nat.le_succ_of_le (h.issued number who' hold)

theorem Lists.unlisten (h : r.Lists b) (number : Nat) :
    (r.unlisten number).2.Lists (.left number (r.unlisten number).1 :: b) := by
  have hanswer : (r.unlisten number).1 = true ↔ ∃ who, b.Registered (number, who) := by
    show decide ((r.listeners.filter (·.1 ≠ number)).length ≠ r.listeners.length) = true ↔ _
    rw [decide_eq_true_iff, ne_eq, List.length_filter_eq_length_iff]
    simp only [← h.listed.mem_iff, decide_eq_true_eq]
    constructor
    · intro hsome
      by_contra hnone
      exact hsome fun x hx hnumber => hnone ⟨x.2, hnumber ▸ hx⟩
    · rintro ⟨who, hmem⟩ hall
      exact hall _ hmem rfl
  constructor
  case sound => exact ⟨hanswer, h.sound⟩
  case listed =>
    refine ⟨h.listed.nodup.sublist (List.filter_sublist.map _), fun x => ?_⟩
    show x ∈ r.listeners.filter (·.1 ≠ number) ↔ x.1 ≠ number ∧ b.Registered x
    rw [List.mem_filter, h.listed.mem_iff, decide_eq_true_iff, and_comm]
  case issued =>
    intro number' who' hcame
    rcases List.mem_cons.mp hcame with heq | hold
    · cases heq
    · exact h.issued number' who' hold

end Replica

end Lagmeter
