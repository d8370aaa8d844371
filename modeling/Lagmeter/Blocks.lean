import Lagmeter.Draws

/-!
# Block distribution

`total` items are split over the ranks of a group in contiguous blocks. The first `total % ranks`
ranks hold one item more than the others. Beside the dense index of an item there is its place in
a padded array, in which every rank has the same number of slots.
-/

namespace Lagmeter

/-- Why a block or a place in it does not exist, or an array does not fit. -/
inductive BlockError where
  | noRanks
  | rankOutside (rank ranks : Nat)
  | outOfBounds (index limit : Nat)
  | shortSource (found expected : Nat)
  | shortTarget (found expected : Nat)
  deriving DecidableEq, Repr

def BlockError.message : BlockError → String
  | .noRanks => "invalid argument: group size must be at least 1"
  | .rankOutside rank ranks =>
    s!"invalid argument: rank {rank} is outside the group [0, {ranks})"
  | .outOfBounds index limit => s!"index {index} out of bounds (limit {limit})"
  | .shortSource found expected =>
    s!"invalid argument: padded source holds {found} slots, expected {expected}"
  | .shortTarget found expected =>
    s!"invalid argument: destination holds {found} slots, expected {expected}"

/-- The split of `total` items over `ranks` ranks, seen from one rank. -/
structure Blocks where
  total : Nat
  ranks : Nat
  rank : Nat
  rank_lt : rank < ranks

namespace Blocks

def ofRank (total ranks rank : Nat) : Except BlockError Blocks :=
  if ranks = 0 then .error .noRanks
  else if h : rank < ranks then .ok ⟨total, ranks, rank, h⟩
  else .error (.rankOutside rank ranks)

def base (b : Blocks) : Nat := b.total / b.ranks

def extra (b : Blocks) : Nat := b.total % b.ranks

def shareOf (b : Blocks) (r : Nat) : Nat := if r < b.extra then b.base + 1 else b.base

def share (b : Blocks) : Nat := b.shareOf b.rank

/-- Slots of every rank in the padded array. -/
def capacity (b : Blocks) : Nat := if b.extra ≠ 0 then b.base + 1 else b.base

def slots (b : Blocks) : Nat := b.capacity * b.ranks

/-! ## Places -/

def offset (b : Blocks) (i : Nat) : Except BlockError Nat :=
  if i < b.share then .ok (b.rank * b.base + i + min b.rank b.extra)
  else .error (.outOfBounds i b.share)

/-- Place of this rank's `i`-th slot in the padded array. -/
def slot (b : Blocks) (i : Nat) : Except BlockError Nat :=
  if i < b.capacity then .ok (b.rank * b.capacity + i) else .error (.outOfBounds i b.capacity)

/-- Items held by another rank of the group. -/
def itemsOf (b : Blocks) (r : Nat) : Except BlockError Nat :=
  if r < b.ranks then .ok (b.shareOf r) else .error (.outOfBounds r b.ranks)

/-! ## From the padded array to the dense one -/

/-- The items of a padded array, rank by rank, without the padding. -/
def dense {α : Type} (b : Blocks) (source : List α) : List α :=
  (List.range b.ranks).flatMap fun r => (source.drop (r * b.capacity)).take (b.shareOf r)

/-- The items of a padded array that is long enough. -/
def compacted {α : Type} (b : Blocks) (source : List α) : Except BlockError (List α) :=
  if source.length < b.slots then .error (.shortSource source.length b.slots)
  else .ok (b.dense source)

/-- The target with its first `total` entries replaced by the items of the padded array. -/
def compactInto {α : Type} (b : Blocks) (source target : List α) : Except BlockError (List α) :=
  if source.length < b.slots then .error (.shortSource source.length b.slots)
  else if target.length < b.total then .error (.shortTarget target.length b.total)
  else .ok (b.dense source ++ target.drop b.total)

/-! ## Keys -/

/-- The largest key. Keys are the positive numbers of 32 bits, so that 0 stays free. -/
def maxKey : Nat := 4294967295

def keyOf (drawn : Nat) : Int := (drawn % maxKey : Nat) + 1

/-- This rank's share of a random key set, padded with zeros to the capacity. -/
def drawKeys (b : Blocks) (d : Draws) : List Int × Draws :=
  let (drawn, d) := d.take b.share
  (drawn.map keyOf ++ List.replicate (b.capacity - b.share) 0, d)

end Blocks

end Lagmeter
