import Lagmeter.Proofs.Feed.Contents
import Mathlib.Data.Finset.Basic
import Mathlib.Data.Finset.Dedup
import Mathlib.Logic.Function.Basic

/-!
# What can be read of a structure

How a structure lists its entries does not matter to those who read it. A table is the function from
a key to its entry, and the routing table is a finite set. Changes act on these as one expects, and
listeners are told of every put and of those edits that make another set.
-/

namespace Lagmeter

namespace Table

variable {κ α : Type} [DecidableEq κ]

theorem keys_put (t : Table κ α) (key : κ) (a : α) :
    (t.put key a).map Prod.fst =
      if key ∈ t.map Prod.fst then t.map Prod.fst else t.map Prod.fst ++ [key] := by
  induction t with
  | nil => rfl
  | cons e rest ih =>
    obtain ⟨k, b⟩ := e
    rw [put, List.map_cons]
    by_cases hk : k = key
    · rw [if_pos hk, if_pos (hk ▸ List.mem_cons_self)]
      rfl
    · have hmem : key ∈ k :: rest.map Prod.fst ↔ key ∈ rest.map Prod.fst :=
        List.mem_cons.trans (or_iff_right (Ne.symm hk))
      rw [if_neg hk, List.map_cons, ih]
      simp only [hmem]
      split <;> rfl

theorem nodup_keys_put {t : Table κ α} (h : (t.map Prod.fst).Nodup) (key : κ) (a : α) :
    ((t.put key a).map Prod.fst).Nodup := by
  rw [keys_put]
  split
  case isTrue => exact h
  case isFalse hnew => exact List.concat_eq_append ▸ h.concat hnew

end Table

namespace Structure

def View : Structure → Type
  | .macTable => Mac → Option Identifier
  | .arpTable | .arpMergedMap => Address → Option ArpEntry
  | .routingTable => Finset Route

def view : (s : Structure) → s.Contents → s.View
  | .macTable, (t : Table Mac Identifier) => t.get?
  | .arpTable, (t : Table Address ArpEntry) => t.get?
  | .arpMergedMap, (t : Table Address ArpEntry) => t.get?
  | .routingTable, (routes : List Route) => routes.toFinset

/-- What is read after a change. -/
def changed : (s : Structure) → s.View → s.Change → s.View
  | .macTable, (v : Mac → Option Identifier), (p : Put Mac Identifier) =>
    Function.update v p.key (some p.value)
  | .arpTable, (v : Address → Option ArpEntry), (p : Put Address ArpEntry) =>
    Function.update v p.key (some p.value)
  | .arpMergedMap, (v : Address → Option ArpEntry), (p : Put Address ArpEntry) =>
    Function.update v p.key (some p.value)
  | .routingTable, (routes : Finset Route), (e : Edit Route) => match e with
    | .add r => (insert r routes : Finset Route)
    | .remove r => routes.erase r

/-- A change that listeners are told of: any put, and an edit that makes another set. -/
def Alters : (s : Structure) → s.View → s.Change → Prop
  | .macTable, _, _ | .arpTable, _, _ | .arpMergedMap, _, _ => True
  | .routingTable, v, e => changed .routingTable v e ≠ v

/-- Nothing is listed twice. -/
def Tidy : (s : Structure) → s.Contents → Prop
  | .macTable, (t : Table Mac Identifier) => (t.map Prod.fst).Nodup
  | .arpTable, (t : Table Address ArpEntry) => (t.map Prod.fst).Nodup
  | .arpMergedMap, (t : Table Address ArpEntry) => (t.map Prod.fst).Nodup
  | .routingTable, (routes : List Route) => routes.Nodup

variable {s : Structure}

theorem tidy_vacant (s : Structure) : s.Tidy s.vacant := by
  cases s <;> exact List.nodup_nil

/-! ## Tables -/

theorem get?_put_eq_update {κ α : Type} [DecidableEq κ] (t : Table κ α) (key : κ) (a : α) :
    (t.put key a).get? = Function.update t.get? key (some a) := by
  funext key'
  rw [Table.get?_put, Function.update_apply]

/-! ## Sets -/

section

variable {α : Type} [DecidableEq α] {set : List α} {e : Edit α}

theorem toFinset_edited (set : List α) (e : Edit α) : (edited set e).1.toFinset = match e with
    | .add a => insert a set.toFinset
    | .remove a => set.toFinset.erase a := by
  cases e with
  | add a =>
    rw [edited]
    split
    case isTrue hmem => exact (Finset.insert_eq_of_mem (List.mem_toFinset.mpr hmem)).symm
    case isFalse =>
      ext b
      rw [List.mem_toFinset, List.mem_append, List.mem_singleton, Finset.mem_insert, List.mem_toFinset,
        or_comm]
  | remove a =>
    rw [edited]
    split
    case isTrue =>
      ext b
      simp [and_comm]
    case isFalse hnone => exact (Finset.erase_eq_of_notMem (by simpa using hnone)).symm

theorem edited_changes_iff : (edited set e).2 = true ↔ (edited set e).1.toFinset ≠ set.toFinset := by
  rw [toFinset_edited]
  cases e with
  | add a => by_cases hmem : a ∈ set <;> simp [edited, hmem]
  | remove a => by_cases hmem : a ∈ set <;> simp [edited, hmem]

theorem nodup_edited (h : set.Nodup) : (edited set e).1.Nodup := by
  cases e with
  | add a =>
    rw [edited]
    split
    case isTrue => exact h
    case isFalse hnew => exact List.concat_eq_append ▸ h.concat hnew
  | remove a =>
    rw [edited]
    split
    case isTrue => exact h.filter _
    case isFalse => exact h

end

/-! ## All structures -/

theorem view_applied (contents : s.Contents) (c : s.Change) :
    s.view (s.applied contents c).1 = s.changed (s.view contents) c := by
  cases s with
  | macTable | arpTable | arpMergedMap => exact get?_put_eq_update ..
  | routingTable => exact (toFinset_edited (α := Route) _ _).trans (by cases c <;> rfl)

theorem applied_tells_iff (contents : s.Contents) (c : s.Change) :
    (s.applied contents c).2 = true ↔ s.Alters (s.view contents) c := by
  cases s with
  | macTable | arpTable | arpMergedMap => exact iff_of_true rfl trivial
  | routingTable =>
    rw [Alters, ← view_applied]
    exact edited_changes_iff

theorem tidy_applied {contents : s.Contents} (h : s.Tidy contents) (c : s.Change) :
    s.Tidy (s.applied contents c).1 := by
  cases s with
  | macTable | arpTable | arpMergedMap => exact Table.nodup_keys_put h ..
  | routingTable => exact nodup_edited h

/-- What is read after some changes of a structure that was empty before. -/
def viewAfter (s : Structure) (changes : List s.Change) : s.View :=
  changes.foldl s.changed (s.view s.vacant)

theorem viewAfter_concat (changes : List s.Change) (c : s.Change) :
    s.viewAfter (changes ++ [c]) = s.changed (s.viewAfter changes) c :=
  List.foldl_concat ..

end Structure

end Lagmeter
