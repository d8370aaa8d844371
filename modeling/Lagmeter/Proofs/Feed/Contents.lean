import Lagmeter.Store.Channel
import Mathlib.Algebra.Ring.Int.Defs
import Mathlib.Algebra.Ring.Nat

/-!
# Samples in a structure

A structure holds what was put into its reserved entry, and nothing else is a sample. In a table a
later sample replaces an earlier one. Routes stay, and the one of the highest metric counts. So a
sample that is newer than all before it can be read as soon as it is applied.
-/

namespace Lagmeter

namespace Table

variable {κ α : Type} [DecidableEq κ]

theorem get?_put (t : Table κ α) (key key' : κ) (a : α) :
    (t.put key a).get? key' = if key' = key then some a else t.get? key' := by
  induction t with
  | nil =>
    rw [put, get?, List.lookup_cons]
    by_cases h : key' = key
    · simp [h]
    · rw [beq_eq_false_iff_ne.mpr h, if_neg h]
      rfl
  | cons e rest ih =>
    obtain ⟨k, b⟩ := e
    rw [put]
    by_cases hk : k = key
    · rw [if_pos hk, get?, get?, List.lookup_cons, List.lookup_cons, hk]
      by_cases h : key' = key
      · simp [h]
      · rw [beq_eq_false_iff_ne.mpr h, if_neg h]
    · rw [if_neg hk, get?, get?, List.lookup_cons, List.lookup_cons]
      by_cases h : key' = k
      · subst h
        simp [hk]
      · rw [beq_eq_false_iff_ne.mpr h]
        exact ih

end Table

namespace Sample

variable {s : Structure} {p q : Sample}

/-- The numbers of the sample have 64 bits. -/
structure Fits (p : Sample) : Prop where
  version : p.version < 2 ^ 64
  writtenAt : p.writtenAt < 2 ^ 64

instance (p : Sample) : Decidable p.Fits :=
  decidable_of_iff (p.version < 2 ^ 64 ∧ p.writtenAt < 2 ^ 64)
    ⟨fun h => ⟨h.1, h.2⟩, fun h => ⟨h.version, h.writtenAt⟩⟩

/-! ## Changes -/

/-- The sample that a change brings into the structure. -/
def carried? : (s : Structure) → s.Change → Option Sample
  | .macTable, (c : Structure.Put Mac Identifier) =>
    if c.key = .zero then some (ofPort c.value) else none
  | .arpTable, (c : Structure.Put Address ArpEntry) =>
    if c.key = .unspecified then some (ofEntry c.value) else none
  | .arpMergedMap, (c : Structure.Put Address ArpEntry) =>
    if c.key = .unspecified then some (ofEntry c.value) else none
  | .routingTable, (c : Structure.Edit Route) => match c with
    | .add r => if r.isDefault then some (ofRoute r) else none
    | .remove _ => none

/-- A change that leaves the samples alone. -/
def Background : (s : Structure) → s.Change → Prop
  | .macTable, (c : Structure.Put Mac Identifier) => c.key ≠ .zero
  | .arpTable, (c : Structure.Put Address ArpEntry) => c.key ≠ .unspecified
  | .arpMergedMap, (c : Structure.Put Address ArpEntry) => c.key ≠ .unspecified
  | .routingTable, (c : Structure.Edit Route) => match c with
    | .add r | .remove r => r.isDefault = false

instance : (s : Structure) → (c : s.Change) → Decidable (Background s c)
  | .macTable, (c : Structure.Put Mac Identifier) => inferInstanceAs (Decidable (c.key ≠ .zero))
  | .arpTable, (c : Structure.Put Address ArpEntry) =>
    inferInstanceAs (Decidable (c.key ≠ .unspecified))
  | .arpMergedMap, (c : Structure.Put Address ArpEntry) =>
    inferInstanceAs (Decidable (c.key ≠ .unspecified))
  | .routingTable, (c : Structure.Edit Route) => match c with
    | .add r | .remove r => inferInstanceAs (Decidable (r.isDefault = false))

theorem carried?_of_background {c : s.Change} (h : Background s c) : carried? s c = none := by
  cases s with
  | macTable | arpTable | arpMergedMap => exact if_neg h
  | routingTable =>
    cases c with
    | remove r => rfl
    | add r => exact if_neg (by rw [show r.isDefault = false from h]; decide)

theorem ofPort_toPort (h : p.Fits) : ofPort p.toPort = p := by
  have hversion := UInt64.toNat_ofNat_of_lt' h.version
  have hwritten := UInt64.toNat_ofNat_of_lt' h.writtenAt
  rw [toPort, ofPort, hversion, hwritten]

theorem carried?_publication (h : p.Fits) (s : Structure) : carried? s (p.publication s) = some p := by
  cases s with
  | macTable => exact congrArg some (ofPort_toPort h)
  | arpTable | arpMergedMap | routingTable => rfl

/-! ## Contents -/

/-- The contents have this sample in an entry. -/
def Held : (s : Structure) → s.Contents → Sample → Prop
  | .macTable, (t : Table Mac Identifier), p => (t.get? .zero).map ofPort = some p
  | .arpTable, (t : Table Address ArpEntry), p => (t.get? .unspecified).map ofEntry = some p
  | .arpMergedMap, (t : Table Address ArpEntry), p => (t.get? .unspecified).map ofEntry = some p
  | .routingTable, (routes : List Route), p => ∃ r ∈ routes, r.isDefault = true ∧ ofRoute r = p

theorem not_held_vacant (s : Structure) (p : Sample) : ¬ Held s s.vacant p := by
  cases s with
  | macTable | arpTable | arpMergedMap => exact nofun
  | routingTable =>
    rintro ⟨r, hr, -⟩
    cases hr

/-! ## Tables -/

section

variable {κ α : Type} [DecidableEq κ] {t : Table κ α} {key reserved : κ} {a : α} {decode : α → Sample}

theorem held_of_put (h : ((t.put key a).get? reserved).map decode = some p) :
    (t.get? reserved).map decode = some p ∨
      (if key = reserved then some (decode a) else none) = some p := by
  rw [Table.get?_put] at h
  split at h
  case isTrue hkey => exact .inr ((if_pos hkey.symm).trans h)
  case isFalse => exact .inl h

theorem get?_put_of_ne (h : key ≠ reserved) :
    ((t.put key a).get? reserved).map decode = (t.get? reserved).map decode := by
  rw [Table.get?_put, if_neg h.symm]

theorem get?_put_self : ((t.put reserved a).get? reserved).map decode = some (decode a) := by
  rw [Table.get?_put, if_pos rfl]
  rfl

end

/-! ## Routes -/

section

variable {routes : List Route} {r : Route}

theorem mem_of_newest {first : Option Route} (h : routes.foldl newer first = some r) :
    r ∈ routes ∨ first = some r := by
  induction routes generalizing first with
  | nil => exact .inr h
  | cons r' rest ih =>
    rcases ih h with hr | hr
    · exact .inl (List.mem_cons_of_mem _ hr)
    · unfold newer at hr
      split at hr
      · cases hr
        exact .inl List.mem_cons_self
      · split at hr
        · cases hr
          exact .inl List.mem_cons_self
        · exact .inr hr

theorem mem_of_edited {e : Structure.Edit Route} (h : r ∈ (Structure.edited routes e).1) :
    r ∈ routes ∨ e = .add r := by
  cases e with
  | add r' =>
    rw [Structure.edited] at h
    split at h
    · exact .inl h
    · rcases List.mem_append.mp h with hmem | hmem
      · exact .inl hmem
      · exact .inr (congrArg _ (List.mem_singleton.mp hmem).symm)
  | remove r' =>
    rw [Structure.edited] at h
    split at h
    · exact .inl (List.mem_filter.mp h).1
    · exact .inl h

theorem filter_edited {e : Structure.Edit Route} (h : Background .routingTable e) :
    (Structure.edited routes e).1.filter Route.isDefault = routes.filter Route.isDefault := by
  cases e with
  | add r =>
    have hr : r.isDefault = false := h
    rw [Structure.edited]
    split
    · rfl
    · simp [hr]
  | remove r =>
    have hr : r.isDefault = false := h
    rw [Structure.edited]
    split
    · simp only [List.filter_filter]
      refine List.filter_congr fun r' _ => ?_
      by_cases heq : r' = r
      · simp [heq, hr]
      · simp [heq]
    · rfl

theorem newest_edited (hr : r.isDefault = true)
    (hnew : ∀ r' ∈ routes, r'.isDefault = true → r'.metric < r.metric) :
    ((Structure.edited routes (.add r)).1.filter Route.isDefault).foldl newer none = some r ∧
      (Structure.edited routes (.add r)).2 = true := by
  have hfresh : r ∉ routes := fun hmem => Nat.lt_irrefl _ (hnew r hmem hr)
  have hadded : Structure.edited routes (.add r) = (routes ++ [r], true) := if_neg hfresh
  have htop : newer ((routes.filter Route.isDefault).foldl newer none) r = some r := by
    cases h : (routes.filter Route.isDefault).foldl newer none with
    | none => rfl
    | some top =>
      rcases mem_of_newest h with hmem | hnone
      · obtain ⟨hmem, htop⟩ := List.mem_filter.mp hmem
        exact if_pos (Nat.le_of_lt (hnew top hmem htop))
      · cases hnone
  refine ⟨?_, by rw [hadded]⟩
  have hlast : [r].filter Route.isDefault = [r] := List.filter_eq_self.mpr (by simp [hr])
  rw [hadded, List.filter_append, hlast, List.foldl_append]
  exact htop

end

/-! ## Reading -/

variable {contents : s.Contents} {c : s.Change}

theorem held_of_latest (h : latest? s contents = some p) : Held s contents p := by
  cases s with
  | macTable | arpTable | arpMergedMap => exact h
  | routingTable =>
    obtain ⟨r, hr, rfl⟩ := Option.map_eq_some_iff.mp h
    rcases mem_of_newest hr with hmem | hnone
    · obtain ⟨hmem, hdefault⟩ := List.mem_filter.mp hmem
      exact ⟨r, hmem, hdefault, rfl⟩
    · cases hnone

theorem held_of_applied (h : Held s (s.applied contents c).1 p) :
    Held s contents p ∨ carried? s c = some p := by
  cases s with
  | macTable | arpTable | arpMergedMap => exact held_of_put h
  | routingTable =>
    obtain ⟨r, hmem, hdefault, rfl⟩ := h
    rcases mem_of_edited hmem with hmem | rfl
    · exact .inl ⟨r, hmem, hdefault, rfl⟩
    · exact .inr (if_pos hdefault)

theorem latest?_of_background (h : Background s c) :
    latest? s (s.applied contents c).1 = latest? s contents := by
  cases s with
  | macTable | arpTable | arpMergedMap => exact get?_put_of_ne h
  | routingTable =>
    exact congrArg (fun routes => (routes.foldl newer none).map ofRoute) (filter_edited h)

/-- A sample that is newer than all that are held is read next, and its change is told of. -/
theorem latest?_of_publication (hp : p.Fits) (hnew : ∀ q, Held s contents q → q.version < p.version) :
    latest? s (s.applied contents (p.publication s)).1 = some p ∧
      (s.applied contents (p.publication s)).2 = true := by
  cases s with
  | macTable => exact ⟨get?_put_self.trans (congrArg some (ofPort_toPort hp)), rfl⟩
  | arpTable | arpMergedMap => exact ⟨get?_put_self, rfl⟩
  | routingTable =>
    obtain ⟨hnewest, htold⟩ := newest_edited (r := p.toRoute) rfl fun r hmem hdefault =>
      hnew (ofRoute r) ⟨r, hmem, hdefault, rfl⟩
    exact ⟨congrArg (Option.map ofRoute) hnewest, htold⟩

end Sample

end Lagmeter
