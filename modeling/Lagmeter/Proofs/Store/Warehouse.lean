import Lagmeter.Proofs.Feed.Basic
import Lagmeter.Proofs.Store.Prefix
import Lagmeter.Store.Hub

/-!
# Warehouses

A warehouse is a hub at work: its structures share a clock and nothing else. A structure is known by
its kind and its name, so everyone who opens these uses the same one, and what is done to it leaves
all others alone.
-/

namespace Lagmeter

/-! ## Hubs -/

namespace Shelf

variable {s : Structure}

theorem find?_set (shelf : Shelf s) (name name' : String) (r : Replica s) :
    (shelf.set name r).find? name' = if name' = name then some r else shelf.find? name' :=
  Table.get?_put shelf name name' r

theorem get_set_self (shelf : Shelf s) (name : String) (r : Replica s) :
    (shelf.set name r).get name = r := by
  rw [get, find?_set, if_pos rfl]
  rfl

theorem get_set_of_ne {name name' : String} (h : name' ≠ name) (shelf : Shelf s) (r : Replica s) :
    (shelf.set name r).get name' = shelf.get name' := by
  rw [get, find?_set, if_neg h]
  rfl

end Shelf

namespace Hub

variable {s s' : Structure} {name name' : String}

theorem shelf_setShelf_self (h : Hub) (shelf : Shelf s) : (h.setShelf s shelf).shelf s = shelf := by
  cases s <;> rfl

theorem shelf_setShelf_of_ne (hne : s' ≠ s) (h : Hub) (shelf : Shelf s) :
    (h.setShelf s shelf).shelf s' = h.shelf s' := by
  cases s <;> cases s' <;> first | rfl | exact absurd rfl hne

theorem delay_set (h : Hub) (name : String) (r : Replica s) : (h.set s name r).delay = h.delay := by
  cases s <;> rfl

theorem get_set_self (h : Hub) (name : String) (r : Replica s) :
    (h.set s name r).get s name = r := by
  rw [get, set, shelf_setShelf_self, Shelf.get_set_self]

theorem get_set_of_ne (hne : s' ≠ s ∨ name' ≠ name) (h : Hub) (r : Replica s) :
    (h.set s name r).get s' name' = h.get s' name' := by
  rw [get, set, get]
  by_cases hs : s' = s
  · subst hs
    rw [shelf_setShelf_self, Shelf.get_set_of_ne (hne.resolve_left (not_not_intro rfl))]
  · rw [shelf_setShelf_of_ne hs]

theorem get_opened (h : Hub) (s s' : Structure) (name name' : String) :
    (h.opened s name).get s' name' = h.get s' name' := by
  rw [opened]
  by_cases hsame : s' = s ∧ name' = name
  · obtain ⟨rfl, rfl⟩ := hsame
    exact get_set_self ..
  · exact get_set_of_ne (not_and_or.mp hsame) ..

end Hub

/-! ## Warehouses -/

structure Warehouse where
  now : Nat := 0
  hub : Hub
  annals : (s : Structure) → String → Annals s := fun _ _ => {}

namespace Warehouse

variable {w w' : Warehouse} {delay : Span} {s s' : Structure} {name name' : String}

inductive Move where
  | tick (time : Nat)
  | opened (s : Structure) (name : String)
  /-- A move of the dispatcher or of a user of a structure that was opened. -/
  | use (s : Structure) (name : String) (move : Depot.Move s)

def depot (w : Warehouse) (s : Structure) (name : String) : Depot s :=
  { w.annals s name with replica := w.hub.get s name }

def setDepot (w : Warehouse) (s : Structure) (name : String) (d : Depot s) : Warehouse :=
  { w with
    hub := w.hub.set s name d.replica
    annals := Function.update w.annals s (Function.update (w.annals s) name d.toAnnals) }

def IsOpen (w : Warehouse) (s : Structure) (name : String) : Prop :=
  ((w.hub.shelf s).find? name).isSome

instance (w : Warehouse) (s : Structure) (name : String) : Decidable (w.IsOpen s name) :=
  inferInstanceAs (Decidable (_ = true))

def act (w : Warehouse) : Move → Option Warehouse
  | .tick time => some { w with now := w.now + time }
  | .opened s name => some { w with hub := w.hub.opened s name }
  | .use s name m => if w.IsOpen s name then
      ((w.depot s name).act w.hub.delay w.now m).map (w.setDepot s name)
    else none

/-- What the moves of everyone lead to. -/
def Leads : Warehouse → Warehouse → Prop := Moves.Lead act fun _ _ => True

theorem depot_setDepot_self (w : Warehouse) (name : String) (d : Depot s) :
    (w.setDepot s name d).depot s name = d := by
  rw [depot, setDepot]
  simp only [Function.update_self, Hub.get_set_self]

theorem depot_setDepot_of_ne (hne : s' ≠ s ∨ name' ≠ name) (w : Warehouse) (d : Depot s) :
    (w.setDepot s name d).depot s' name' = w.depot s' name' := by
  rw [depot, setDepot, depot]
  simp only [Hub.get_set_of_ne hne]
  by_cases hs : s' = s
  · subst hs
    rw [Function.update_self, Function.update_of_ne (hne.resolve_left (not_not_intro rfl))]
  · rw [Function.update_of_ne hs]

theorem depot_opened (h : w.act (.opened s name) = some w') :
    w'.IsOpen s name ∧ ∀ s' name', w'.depot s' name' = w.depot s' name' := by
  cases h
  refine ⟨?_, fun s' name' => ?_⟩
  · show (((w.hub.set s name _).shelf s).find? name).isSome = true
    rw [Hub.set, Hub.shelf_setShelf_self, Shelf.find?_set, if_pos rfl]
    rfl
  · rw [depot, depot, Hub.get_opened]

theorem eq_of_use {m : Depot.Move s} (h : w.act (.use s name m) = some w') : ∃ d,
    (w.depot s name).act w.hub.delay w.now m = some d ∧ w' = w.setDepot s name d := by
  rw [act] at h
  split at h
  case isFalse => cases h
  case isTrue =>
    obtain ⟨d, hd, rfl⟩ := Option.map_eq_some_iff.mp h
    exact ⟨d, hd, rfl⟩

end Warehouse

end Lagmeter
