import Lagmeter.Roles
import Mathlib.Order.Interval.Finset.Nat

/-!
# Filled structures

A group that is large enough fills every role of a plan: each map has one block of ranks, a writer and
then its readers, and what is left of the group is idle.
-/

namespace Lagmeter

/-- The map that a role writes. -/
def Role.written? : Role → Option Nat
  | .writer map => some map
  | _ => none

namespace RolePlan

variable {p : RolePlan} {n q r map : Nat}

theorem validate_ok_iff : p.validate n = .ok () ↔ p.maps * (1 + p.readersPerMap) ≤ n := by
  unfold validate required block
  split <;> simp <;> omega

/-! ## The role of a rank -/

theorem block_pos (p : RolePlan) : 0 < p.block := by
  unfold block
  omega

theorem roleOf_eq_idle_iff : p.roleOf r = .idle ↔ p.required ≤ r := by
  unfold roleOf
  split
  · simpa
  · split <;> simp <;> omega

theorem roleOf_block (hmap : map < p.maps) {i : Nat} (hi : i < p.block) :
    p.roleOf (map * p.block + i) = if i = 0 then .writer map else .reader map := by
  have hlast : map * p.block + i < p.required := by
    have hblocks := Nat.mul_le_mul_right p.block (Nat.succ_le_of_lt hmap)
    rw [Nat.succ_mul] at hblocks
    unfold required
    omega
  have hdiv : (map * p.block + i) / p.block = map := by
    rw [Nat.mul_comm, Nat.mul_add_div (Nat.zero_lt_of_lt hi), Nat.div_eq_of_lt hi, Nat.add_zero]
  have hmod : (map * p.block + i) % p.block = i := by
    rw [Nat.mul_comm, Nat.mul_add_mod, Nat.mod_eq_of_lt hi]
  unfold roleOf
  rw [if_neg (Nat.not_le.mpr hlast), hdiv, hmod]

theorem exists_block (h : r < p.required) :
    ∃ map < p.maps, ∃ i < p.block, r = map * p.block + i := by
  refine ⟨r / p.block, (Nat.div_lt_iff_lt_mul p.block_pos).mpr h, r % p.block,
    Nat.mod_lt r p.block_pos, ?_⟩
  rw [Nat.mul_comm, Nat.div_add_mod]

theorem roleOf_eq_writer_iff : p.roleOf r = .writer map ↔ map < p.maps ∧ r = map * p.block := by
  constructor
  · intro h
    have hbusy : r < p.required := by
      by_contra hidle
      simp [roleOf_eq_idle_iff.mpr (Nat.le_of_not_lt hidle)] at h
    obtain ⟨m, hm, i, hi, rfl⟩ := exists_block hbusy
    rw [roleOf_block hm hi] at h
    split at h
    case isTrue hfirst =>
      obtain rfl := Role.writer.inj h
      exact ⟨hm, by omega⟩
    case isFalse => cases h
  · rintro ⟨hmap, rfl⟩
    simpa using roleOf_block hmap p.block_pos

theorem roleOf_eq_reader_iff : p.roleOf r = .reader map ↔
    map < p.maps ∧ map * p.block < r ∧ r < (map + 1) * p.block := by
  rw [Nat.succ_mul]
  constructor
  · intro h
    have hbusy : r < p.required := by
      by_contra hidle
      simp [roleOf_eq_idle_iff.mpr (Nat.le_of_not_lt hidle)] at h
    obtain ⟨m, hm, i, hi, rfl⟩ := exists_block hbusy
    rw [roleOf_block hm hi] at h
    split at h
    case isTrue => cases h
    case isFalse hlater =>
      obtain rfl := Role.reader.inj h
      exact ⟨hm, by omega, by omega⟩
  · rintro ⟨hmap, hafter, hbefore⟩
    obtain ⟨i, rfl⟩ := Nat.exists_eq_add_of_le (Nat.le_of_lt hafter)
    rw [roleOf_block hmap (by omega), if_neg (by omega)]

theorem map?_roleOf_eq_iff : (p.roleOf r).map? = some map ↔
    map < p.maps ∧ map * p.block ≤ r ∧ r < (map + 1) * p.block := by
  have hsplit : (p.roleOf r).map? = some map ↔
      p.roleOf r = .writer map ∨ p.roleOf r = .reader map := by
    cases p.roleOf r <;> simp [Role.map?]
  have hblock := p.block_pos
  rw [hsplit, roleOf_eq_writer_iff, roleOf_eq_reader_iff, Nat.succ_mul]
  omega

/-! ## Filled groups -/

/-- The ranks of a group fill the structures of a plan. -/
structure Filled (p : RolePlan) (n : Nat) : Prop where
  /-- The ranks of a map are one block of the group. -/
  block : ∀ map < p.maps, (map + 1) * p.block ≤ n ∧
    ∀ r, (p.roleOf r).map? = some map ↔ map * p.block ≤ r ∧ r < (map + 1) * p.block
  /-- The only writer of a map is the first rank of its block. -/
  writer : ∀ map < p.maps, ∀ r, p.roleOf r = .writer map ↔ r = map * p.block
  readers : ∀ map < p.maps,
    ((Finset.range n).filter fun r => p.roleOf r = .reader map).card = p.readersPerMap
  maps : ∀ r map, (p.roleOf r).map? = some map → map < p.maps
  ordered : ∀ q r m m', q ≤ r → (p.roleOf q).map? = some m → (p.roleOf r).map? = some m' → m ≤ m'
  /-- The ranks after the last block are idle, and no others. -/
  idle : ((Finset.range n).filter fun r => p.roleOf r = .idle) = Finset.Ico p.required n
  idle_card : ((Finset.range n).filter fun r => p.roleOf r = .idle).card = n - p.required

theorem filled_of_validate (h : p.validate n = .ok ()) : p.Filled n := by
  have hrequired : p.required ≤ n := validate_ok_iff.mp h
  have hidle : ((Finset.range n).filter fun r => p.roleOf r = .idle) = Finset.Ico p.required n := by
    ext r
    simp [roleOf_eq_idle_iff]
    omega
  have hlast {map : Nat} (hmap : map < p.maps) : (map + 1) * p.block ≤ n :=
    Nat.le_trans (Nat.mul_le_mul_right p.block (Nat.succ_le_of_lt hmap)) hrequired
  constructor
  case block => exact fun map hmap => ⟨hlast hmap, fun r => by simp [map?_roleOf_eq_iff, hmap]⟩
  case writer => exact fun map hmap r => by simp [roleOf_eq_writer_iff, hmap]
  case readers =>
    intro map hmap
    have hreaders : ((Finset.range n).filter fun r => p.roleOf r = .reader map) =
        Finset.Ioo (map * p.block) ((map + 1) * p.block) := by
      have := hlast hmap
      ext r
      simp [roleOf_eq_reader_iff, hmap]
      omega
    rw [hreaders, Nat.card_Ioo, Nat.succ_mul]
    unfold RolePlan.block
    omega
  case maps => exact fun r map hmap => (map?_roleOf_eq_iff.mp hmap).1
  case ordered =>
    intro q r m m' hqr hq hr
    obtain ⟨-, hfirst, -⟩ := map?_roleOf_eq_iff.mp hq
    obtain ⟨-, -, hlast⟩ := map?_roleOf_eq_iff.mp hr
    have hlt : m * p.block < (m' + 1) * p.block := by omega
    have := Nat.lt_of_mul_lt_mul_right hlt
    omega
  case idle => exact hidle
  case idle_card => rw [hidle, Nat.card_Ico]

/-! ## The writers of a group -/

theorem writers_of_block (hmap : map < p.maps) :
    (List.range p.block).filterMap (fun i => (p.roleOf (map * p.block + i)).written?) = [map] := by
  have hreaders : (List.range p.readersPerMap).filterMap
      (fun i => (p.roleOf (map * p.block + (1 + i))).written?) = [] := by
    rw [List.filterMap_eq_nil_iff]
    intro i hi
    rw [List.mem_range] at hi
    have hplace : 1 + i < p.block := by
      unfold block
      omega
    rw [roleOf_block hmap hplace, if_neg (by omega)]
    rfl
  have hwriter : (p.roleOf (map * p.block + 0)).written? = some map := by
    rw [roleOf_block hmap p.block_pos, if_pos rfl]
    rfl
  have hplaces : List.range p.block = 0 :: (List.range p.readersPerMap).map (1 + ·) := List.range_add
  simp only [hplaces, List.filterMap_cons, hwriter, List.filterMap_map]
  exact congrArg _ hreaders

theorem writers_of_blocks {m : Nat} (hm : m ≤ p.maps) :
    (List.range (m * p.block)).filterMap (fun r => (p.roleOf r).written?) = List.range m := by
  induction m with
  | zero => simp
  | succ m ih =>
    rw [Nat.succ_mul, List.range_add, List.filterMap_append, ih (by omega), List.filterMap_map,
      List.range_succ]
    exact congrArg _ (writers_of_block hm)

theorem writers_of_validate (h : p.validate n = .ok ()) :
    (List.range n).filterMap (fun r => (p.roleOf r).written?) = List.range p.maps := by
  obtain ⟨rest, rfl⟩ := Nat.exists_eq_add_of_le (show p.required ≤ n from validate_ok_iff.mp h)
  have hrest : (List.range rest).filterMap (fun i => (p.roleOf (p.required + i)).written?) = [] := by
    rw [List.filterMap_eq_nil_iff]
    intro i _
    rw [roleOf_eq_idle_iff.mpr (Nat.le_add_right ..)]
    rfl
  rw [List.range_add, List.filterMap_append, List.filterMap_map, required,
    writers_of_blocks (Nat.le_refl _)]
  rw [required] at hrest
  simpa [Function.comp_def] using hrest

end RolePlan

end Lagmeter
