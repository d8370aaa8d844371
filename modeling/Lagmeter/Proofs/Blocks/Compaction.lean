import Lagmeter.Proofs.Blocks.Tiling

/-!
# Compaction

The items of a padded array move to their places in the dense order, and the padding is lost. A loop
over the ranks that may only touch what is inside of its arrays makes the same, whether it fills a new
array or writes into one that is there.
-/

namespace Lagmeter.Blocks

variable {α : Type}

/-! ## Loops over the ranks -/

/-- A stretch of an array. There is none where the array ends before it. -/
def stretch? (xs : List α) (start count : Nat) : Option (List α) :=
  if start + count ≤ xs.length then some ((xs.drop start).take count) else none

/-- The array with a piece written over a stretch of it. -/
def overwrite? (xs : List α) (start : Nat) (piece : List α) : Option (List α) :=
  if start + piece.length ≤ xs.length then
    some (xs.take start ++ piece ++ xs.drop (start + piece.length))
  else none

/-- The items of one rank are appended to those of the ranks before. -/
def appendRank (b : Blocks) (source dense : List α) (r : Nat) : Option (List α) := do
  let count ← (b.itemsOf r).toOption
  let piece ← stretch? source (r * b.capacity) count
  return dense ++ piece

/-- An array that is being filled, and its first entry that is yet to be written. -/
structure Cursor (α : Type) where
  next : Nat
  target : List α

/-- The items of one rank are written over the next entries. -/
def copyRank (b : Blocks) (source : List α) (c : Cursor α) (r : Nat) : Option (Cursor α) := do
  let count ← (b.itemsOf r).toOption
  let piece ← stretch? source (r * b.capacity) count
  let target ← overwrite? c.target c.next piece
  return ⟨c.next + count, target⟩

/-- A new array with the items of all ranks. `none` stands for an access outside of an array. -/
def gather? (b : Blocks) (source : List α) : Option (Except BlockError (List α)) :=
  if source.length < b.slots then some (.error (.shortSource source.length b.slots))
  else ((List.range b.ranks).foldlM (b.appendRank source) []).map .ok

/-- What comes of writing into an array, and the array afterwards. -/
def copy? (b : Blocks) (source target : List α) : Option (Except BlockError Unit × List α) :=
  if source.length < b.slots then some (.error (.shortSource source.length b.slots), target)
  else if target.length < b.total then some (.error (.shortTarget target.length b.total), target)
  else ((List.range b.ranks).foldlM (b.copyRank source) ⟨0, target⟩).map fun c => (.ok (), c.target)

/-! ## The items of the first ranks -/

variable {b : Blocks} {source target : List α}

def itemsUpTo (b : Blocks) (source : List α) (n : Nat) : List α :=
  (List.range n).flatMap fun r => (source.drop (r * b.capacity)).take (b.shareOf r)

theorem itemsUpTo_succ (n : Nat) : b.itemsUpTo source (n + 1) =
    b.itemsUpTo source n ++ (source.drop (n * b.capacity)).take (b.shareOf n) := by
  rw [itemsUpTo, List.range_succ, List.flatMap_append, List.flatMap_singleton]
  rfl

section

variable (hsource : b.slots ≤ source.length)

include hsource

theorem slots_of_rank_le {r : Nat} (hr : r < b.ranks) : r * b.capacity + b.capacity ≤ source.length := by
  have hle : (r + 1) * b.capacity ≤ b.slots := by
    rw [slots, Nat.mul_comm b.capacity]
    exact Nat.mul_le_mul_right _ hr
  rw [Nat.succ_mul] at hle
  omega

theorem stretch?_items {r : Nat} (hr : r < b.ranks) : stretch? source (r * b.capacity) (b.shareOf r) =
    some ((source.drop (r * b.capacity)).take (b.shareOf r)) := by
  have hslots := slots_of_rank_le hsource hr
  have hshare := b.shareOf_le_capacity r
  exact if_pos (by omega)

theorem length_items {r : Nat} (hr : r < b.ranks) :
    ((source.drop (r * b.capacity)).take (b.shareOf r)).length = b.shareOf r := by
  have hslots := slots_of_rank_le hsource hr
  have hshare := b.shareOf_le_capacity r
  rw [List.length_take, List.length_drop]
  omega

theorem length_itemsUpTo {n : Nat} (hn : n ≤ b.ranks) : (b.itemsUpTo source n).length = b.first n :=
  b.length_shares_take n fun _ hq => length_items hsource (by omega)

theorem appendRank_itemsUpTo {r : Nat} (hr : r < b.ranks) :
    b.appendRank source (b.itemsUpTo source r) r = some (b.itemsUpTo source (r + 1)) := by
  rw [itemsUpTo_succ]
  simp [appendRank, itemsOf, hr, Except.toOption, stretch?_items hsource hr]

theorem foldlM_appendRank {n : Nat} (hn : n ≤ b.ranks) :
    (List.range n).foldlM (b.appendRank source) [] = some (b.itemsUpTo source n) := by
  induction n with
  | zero => rfl
  | succ n ih =>
    rw [List.range_succ, List.foldlM_append, ih (Nat.le_of_succ_le hn)]
    simp [appendRank_itemsUpTo hsource hn]

variable (htarget : b.total ≤ target.length)

include htarget

theorem copyRank_itemsUpTo {r : Nat} (hr : r < b.ranks) :
    b.copyRank source ⟨b.first r, b.itemsUpTo source r ++ target.drop (b.first r)⟩ r =
      some ⟨b.first (r + 1), b.itemsUpTo source (r + 1) ++ target.drop (b.first (r + 1))⟩ := by
  have hbefore := length_itemsUpTo hsource (Nat.le_of_lt hr)
  have hitems := length_items hsource hr
  have hend : b.first (r + 1) ≤ target.length :=
    Nat.le_trans (b.first_mono hr) (b.first_ranks ▸ htarget)
  have hnext := b.first_succ r
  generalize hpiece : (source.drop (r * b.capacity)).take (b.shareOf r) = piece at hitems
  have hover : overwrite? (b.itemsUpTo source r ++ target.drop (b.first r)) (b.first r) piece =
      some (b.itemsUpTo source r ++ piece ++ target.drop (b.first (r + 1))) := by
    unfold overwrite?
    rw [if_pos (by simp only [List.length_append, List.length_drop]; omega), hitems, ← hnext,
      List.take_left' hbefore, List.drop_append, List.drop_of_length_le (by omega), List.nil_append,
      List.drop_drop, hbefore, Nat.add_sub_cancel' (by omega)]
  simp only [copyRank, itemsOf, if_pos hr, Except.toOption, stretch?_items hsource hr, hpiece,
    Option.bind_eq_bind, Option.bind_some, hover, itemsUpTo_succ, hnext]
  rfl

theorem foldlM_copyRank {n : Nat} (hn : n ≤ b.ranks) :
    (List.range n).foldlM (b.copyRank source) ⟨0, target⟩ =
      some ⟨b.first n, b.itemsUpTo source n ++ target.drop (b.first n)⟩ := by
  induction n with
  | zero => simp [itemsUpTo]
  | succ n ih =>
    rw [List.range_succ, List.foldlM_append, ih (Nat.le_of_succ_le hn)]
    simp [copyRank_itemsUpTo hsource htarget hn]

end

theorem gather?_eq (b : Blocks) (source : List α) : b.gather? source = some (b.compacted source) := by
  unfold gather? compacted
  split
  · rfl
  · rw [foldlM_appendRank (by omega) (Nat.le_refl _)]
    rfl

theorem copy?_eq (b : Blocks) (source target : List α) : b.copy? source target =
    some (match b.compactInto source target with
      | .ok written => (.ok (), written)
      | .error e => (.error e, target)) := by
  unfold copy? compactInto
  split
  · rfl
  split
  · rfl
  rw [foldlM_copyRank (by omega) (by omega) (Nat.le_refl _), first_ranks]
  rfl

/-! ## Items and their places -/

theorem getElem?_flatMap_range (xs : Nat → List α) {r n i : Nat} (hr : r < n)
    (hi : i < (xs r).length) : ((List.range n).flatMap xs)[((List.range r).flatMap xs).length + i]? =
      (xs r)[i]? := by
  obtain ⟨rest, rfl⟩ := Nat.exists_eq_add_of_lt hr
  rw [show r + rest + 1 = r + 1 + rest by omega, List.range_add, List.range_succ,
    List.flatMap_append, List.flatMap_append, List.flatMap_singleton, List.append_assoc,
    List.getElem?_append_right (Nat.le_add_right _ _), Nat.add_sub_cancel_left,
    List.getElem?_append_left hi]

theorem getElem?_dense (hsource : b.slots ≤ source.length) {r i : Nat} (hr : r < b.ranks)
    (hi : i < b.shareOf r) : (b.dense source)[b.first r + i]? = source[r * b.capacity + i]? := by
  have hat := getElem?_flatMap_range (fun r => (source.drop (r * b.capacity)).take (b.shareOf r)) hr
    (Nat.lt_of_lt_of_eq hi (length_items hsource hr).symm)
  have hbefore := length_itemsUpTo hsource (Nat.le_of_lt hr)
  rw [itemsUpTo] at hbefore
  rw [hbefore, List.getElem?_take_of_lt hi, List.getElem?_drop] at hat
  exact hat

theorem dense_congr {source' : List α}
    (h : ∀ r < b.ranks, ∀ i < b.shareOf r, source'[r * b.capacity + i]? = source[r * b.capacity + i]?) :
    b.dense source' = b.dense source := by
  unfold dense
  refine List.flatMap_congr fun r hr => List.ext_getElem? fun i => ?_
  rw [List.getElem?_take, List.getElem?_take, List.getElem?_drop, List.getElem?_drop]
  split
  · exact h r (List.mem_range.mp hr) i ‹_›
  · rfl

/-- The dense array has all items, each one at its own place, as they are in the padded array. -/
structure Compacts (b : Blocks) (source dense : List α) : Prop where
  length_eq : dense.length = b.total
  item : ∀ r : Fin b.ranks, b.itemsOf r = .ok (view b.total r).share ∧
    ∀ i < (view b.total r).share, ∃ k j, (view b.total r).offset i = .ok k ∧
      (view b.total r).slot i = .ok j ∧ j < source.length ∧ dense[k]? = source[j]?

theorem compacts_dense (hsource : b.slots ≤ source.length) : b.Compacts source (b.dense source) where
  length_eq := b.length_shares fun _ hq => length_items hsource hq
  item r := by
    refine ⟨if_pos r.isLt, fun i hi => ?_⟩
    have hslots := slots_of_rank_le hsource r.isLt
    have hshare := b.shareOf_le_capacity r
    have hi' : i < b.shareOf r := hi
    have hslot : (view b.total r).slot i = .ok (r * b.capacity + i) :=
      if_pos (show i < b.capacity by omega)
    exact ⟨b.first r + i, r * b.capacity + i, (offset_view _ r i).trans (if_pos hi), hslot, by omega,
      getElem?_dense hsource r.isLt hi⟩

/-- A padded array that is long enough compacts to a dense one, and all ranks make the same. -/
theorem items_compacted (b : Blocks) (source : List α) :
    (source.length < b.slots → b.compacted source = .error (.shortSource source.length b.slots) ∧
      ∀ target, b.compactInto source target = .error (.shortSource source.length b.slots)) ∧
    (b.slots ≤ source.length → ∃ dense, b.Compacts source dense ∧
      (∀ r : Fin b.ranks, (view b.total r).compacted source = .ok dense) ∧
      (∀ source', b.slots ≤ source'.length →
        (∀ r : Fin b.ranks, ∀ i < (view b.total r).share, ∀ j, (view b.total r).slot i = .ok j →
          source'[j]? = source[j]?) → b.compacted source' = .ok dense) ∧
      ∀ r : Fin b.ranks, ∀ target,
        (target.length < b.total → (view b.total r).compactInto source target =
          .error (.shortTarget target.length b.total)) ∧
        (b.total ≤ target.length → (view b.total r).compactInto source target =
          .ok (dense ++ target.drop b.total))) ∧
    b.gather? source = some (b.compacted source) ∧
    ∀ target, b.copy? source target = some (match b.compactInto source target with
      | .ok written => (.ok (), written)
      | .error e => (.error e, target)) := by
  refine ⟨fun hshort => ⟨if_pos hshort, fun _ => if_pos hshort⟩, fun hsource => ?_,
    b.gather?_eq source, b.copy?_eq source⟩
  refine ⟨b.dense source, compacts_dense hsource, fun r => if_neg (Nat.not_lt.mpr hsource), ?_, ?_⟩
  · intro source' hsource' hagree
    rw [compacted, if_neg (Nat.not_lt.mpr hsource')]
    refine congrArg Except.ok (dense_congr fun r hr i hi => ?_)
    have hshare := b.shareOf_le_capacity r
    exact hagree ⟨r, hr⟩ i hi _ (if_pos (show i < b.capacity by omega))
  · intro r target
    have hgo : (view b.total r).compactInto source target =
        if target.length < b.total then .error (.shortTarget target.length b.total)
        else .ok (b.dense source ++ target.drop b.total) := if_neg (Nat.not_lt.mpr hsource)
    rw [hgo]
    exact ⟨fun hshort => if_pos hshort, fun htarget => if_neg (Nat.not_lt.mpr htarget)⟩

theorem items_compacted_seven :
    (view 7 (2 : Fin 5)).slots ≤ [0, 0, 1, 1, 2, 9, 3, 9, 4, 9].length ∧
    (view 7 (2 : Fin 5)).compacted [0, 0, 1, 1, 2, 9, 3, 9, 4, 9] = .ok [0, 0, 1, 1, 2, 3, 4] ∧
    ∃ dense, (view 7 (2 : Fin 5)).Compacts [0, 0, 1, 1, 2, 9, 3, 9, 4, 9] dense ∧
      (view 7 (2 : Fin 5)).compacted [0, 0, 1, 1, 2, 9, 3, 9, 4, 9] = .ok dense := by
  have hsource : (view 7 (2 : Fin 5)).slots ≤ [0, 0, 1, 1, 2, 9, 3, 9, 4, 9].length := by decide
  obtain ⟨dense, hdense, hsame, -⟩ := (items_compacted _ _).2.1 hsource
  exact ⟨hsource, by decide, dense, hdense, hsame (2 : Fin 5)⟩

end Lagmeter.Blocks
