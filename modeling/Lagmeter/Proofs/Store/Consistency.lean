import Lagmeter.Proofs.Store.Warehouse

/-!
# Consistency of a store

However everyone who uses a hub and the dispatchers of its structures take turns, each structure
shows a prefix of what was submitted to it, and tells of each change as it is applied.
-/

namespace Lagmeter

namespace Depot

variable {s : Structure}

variable {delay : Span} {d : Depot s}

end Depot

namespace Warehouse

variable {w w' : Warehouse} {delay : Span} {s : Structure} {name : String} {m : Move}

structure Kept (delay : Span) (w : Warehouse) : Prop where
  span : w.hub.delay = delay
  depots : ∀ s name, (w.depot s name).Kept delay

theorem kept_new (delay : Span) : ({ hub := { delay } } : Warehouse).Kept delay where
  span := rfl
  depots s _ := by cases s <;> exact Depot.kept_new delay

theorem Kept.act (h : w.Kept delay) (hact : w.act m = some w') : w'.Kept delay := by
  cases m with
  | tick time =>
    cases hact
    exact ⟨h.span, h.depots⟩
  | opened s name =>
    have hsame := (depot_opened hact).2
    cases hact
    exact ⟨(Hub.delay_set ..).trans h.span, fun s' name' => hsame s' name' ▸ h.depots s' name'⟩
  | use s name m =>
    obtain ⟨d, hd, rfl⟩ := eq_of_use hact
    rw [h.span] at hd
    refine ⟨(Hub.delay_set ..).trans h.span, fun s' name' => ?_⟩
    by_cases hsame : s' = s ∧ name' = name
    · obtain ⟨rfl, rfl⟩ := hsame
      rw [depot_setDepot_self]
      exact (h.depots s' name').act hd
    · rw [depot_setDepot_of_ne (not_and_or.mp hsame)]
      exact h.depots s' name'

end Warehouse

end Lagmeter
