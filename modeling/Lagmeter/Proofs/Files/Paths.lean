import Lagmeter.Files
import Mathlib.Data.List.Basic
import Mathlib.Data.List.TakeWhile

/-!
# Paths of names

A name that is appended to a path is the last name of the new path, whatever the path looked like before:
with a stroke at its end or without one, absolute or not, or empty.
-/

namespace Lagmeter.Path

/-! ## Pieces -/

theorem pieces_ne_nil (cs : List Char) : pieces cs ≠ [] := by
  cases cs with
  | nil => simp [pieces]
  | cons c cs =>
    unfold pieces
    split
    · simp
    · split <;> simp

theorem pieces_append (a b : List Char) : pieces (a ++ '/' :: b) = pieces a ++ pieces b := by
  induction a with
  | nil => simp [pieces]
  | cons c a ih =>
    rw [List.cons_append, pieces, pieces, ih]
    split
    case isTrue => rfl
    case isFalse =>
      cases ha : pieces a with
      | nil => exact absurd ha (pieces_ne_nil a)
      | cons piece rest => rfl

theorem pieces_of_not_mem {cs : List Char} (h : '/' ∉ cs) : pieces cs = [cs] := by
  induction cs with
  | nil => rfl
  | cons c cs ih =>
    obtain ⟨hc, hcs⟩ := List.ne_and_not_mem_of_not_mem_cons h
    rw [pieces, if_neg (Ne.symm hc), ih hcs]

/-! ## Names -/

/-- A name as a directory may hold it. -/
structure IsName (s : String) : Prop where
  ne_empty : s ≠ ""
  ne_point : s ≠ "."
  ne_parent : s ≠ ".."
  no_stroke : '/' ∉ s.toList

instance (s : String) : Decidable (IsName s) :=
  decidable_of_iff (s ≠ "" ∧ s ≠ "." ∧ s ≠ ".." ∧ '/' ∉ s.toList)
    ⟨fun ⟨h1, h2, h3, h4⟩ => ⟨h1, h2, h3, h4⟩, fun ⟨h1, h2, h3, h4⟩ => ⟨h1, h2, h3, h4⟩⟩

/-- A path that does not go back. -/
def IsStraight (p : String) : Prop := ".." ∉ parts p

instance (p : String) : Decidable (IsStraight p) := inferInstanceAs (Decidable (_ ∉ _))

/-- The names of a path before one that is appended. -/
def stem (p : String) : List String :=
  if p = "" ∨ p.toList.getLast? = some '/' then (parts p).dropLast else parts p

section

variable {p q r : String}

theorem IsName.toList_ne_nil (h : IsName q) :
    q.toList ≠ [] := fun hnil => h.ne_empty (String.toList_eq_nil_iff.mp hnil)

theorem IsName.parts_eq (h : IsName q) : parts q = [q] := by
  rw [parts, pieces_of_not_mem h.no_stroke]
  simp

theorem IsName.join_eq (h : IsName q) (p : String) :
    join p q = if p = "" ∨ p.toList.getLast? = some '/' then p ++ q else p ++ "/" ++ q := by
  rw [join, if_neg]
  intro hhead
  exact h.no_stroke (List.mem_of_head? hhead)

theorem parts_append (p q : String) : parts (p ++ "/" ++ q) = parts p ++ parts q := by
  rw [parts, String.toList_append, String.toList_append, List.append_assoc,
    show "/".toList ++ q.toList = '/' :: q.toList from rfl, pieces_append, List.map_append]
  rfl

theorem exists_parts_of_last (h : p.toList.getLast? = some '/') :
    ∃ a : String, p = a ++ "/" ∧ parts p = parts a ++ [""] := by
  obtain ⟨a, ha⟩ := List.getLast?_eq_some_iff.mp h
  have hp : p = String.ofList a ++ "/" := by
    apply String.toList_injective
    simp [ha]
  refine ⟨String.ofList a, hp, ?_⟩
  have happend := parts_append (String.ofList a) ""
  rwa [String.append_empty, ← hp] at happend

theorem parts_join (h : IsName q) (p : String) : parts (join p q) = stem p ++ [q] := by
  rw [h.join_eq, stem]
  split
  case isFalse => rw [parts_append, h.parts_eq]
  case isTrue hp =>
    rcases hp with rfl | hlast
    · rw [String.empty_append, h.parts_eq]
      rfl
    · obtain ⟨a, rfl, hparts⟩ := exists_parts_of_last hlast
      rw [hparts, List.dropLast_concat, parts_append, h.parts_eq]

theorem join_last (h : IsName q) (p : String) : (join p q).toList.getLast? = q.toList.getLast? := by
  rw [h.join_eq]
  split <;> simp only [String.toList_append, List.getLast?_append_of_ne_nil _ h.toList_ne_nil]

theorem join_last_ne (h : IsName q) (p : String) : (join p q).toList.getLast? ≠ some '/' := by
  rw [join_last h]
  exact fun hlast => h.no_stroke (List.mem_of_getLast? hlast)

theorem stem_join (h : IsName q) (p : String) : stem (join p q) = stem p ++ [q] := by
  rw [stem, if_neg, parts_join h]
  rintro (hempty | hlast)
  · have hlast := join_last h p
    rw [hempty] at hlast
    exact h.toList_ne_nil (List.getLast?_eq_none_iff.mp hlast.symm)
  · exact join_last_ne h p hlast

theorem dropStrokes_eq_self {cs : List Char} (h : cs.getLast? ≠ some '/') : dropStrokes cs = cs := by
  rw [← List.head?_reverse] at h
  rw [dropStrokes, List.dropWhile_eq_self_iff.mpr, List.reverse_reverse]
  intro hlength
  rw [List.head?_eq_getElem?, List.getElem?_eq_getElem hlength] at h
  simpa using h

theorem dropStrokes_join (h : IsName q) (p : String) : dropStrokes (join p q).toList = (join p q).toList :=
  dropStrokes_eq_self (join_last_ne h p)

theorem leading_append (a b : List String) :
    leading (a ++ b) = leading a ++ leading b := List.filter_append a b

theorem leading_skip {name : String} (h : name = "" ∨ name = ".") (rest : List String) :
    leading (name :: rest) = leading rest :=
  List.filter_cons_of_neg (by simpa [← not_or] using h)

theorem leading_cons {name : String} (h : ¬ (name = "" ∨ name = ".")) (rest : List String) :
    leading (name :: rest) = name :: leading rest :=
  List.filter_cons_of_pos (by simpa [← not_or] using h)

theorem leading_concat (h : IsName q) (a : List String) : leading (a ++ [q]) = leading a ++ [q] := by
  rw [leading_append, leading_cons (not_or.mpr ⟨h.ne_empty, h.ne_point⟩)]
  rfl

theorem names_eq (p : String) : names p = leading (stem p) := by
  rw [names, stem]
  split
  case isFalse => rfl
  case isTrue hp =>
    rcases hp with rfl | hlast
    · rfl
    · obtain ⟨a, -, hparts⟩ := exists_parts_of_last hlast
      rw [hparts, List.dropLast_concat, leading_append]
      exact List.append_nil _

theorem names_join (h : IsName q) (p : String) : names (join p q) = names p ++ [q] := by
  rw [names_eq, stem_join h, leading_concat h, ← names_eq]

theorem not_mem_stem (h : IsStraight p) : ".." ∉ stem p := by
  rw [stem]
  split
  · exact fun hmem => h (List.dropLast_subset _ hmem)
  · exact h

theorem isStraight_join (h : IsName q) (hp : IsStraight p) : IsStraight (join p q) := by
  rw [IsStraight, parts_join h, List.mem_append, List.mem_singleton]
  exact not_or.mpr ⟨not_mem_stem hp, h.ne_parent.symm⟩

end

end Lagmeter.Path
