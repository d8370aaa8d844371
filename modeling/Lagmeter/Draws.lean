/-!
# Random draws

Randomness is a supply of numbers that is given from outside and used up one by one. A statement
about every supply is a statement about every run of the dice.
-/

namespace Lagmeter

/-- A supply of numbers, and how many of them were used. -/
structure Draws where
  source : Nat → Nat
  used : Nat := 0

namespace Draws

/-- The next number and the supply after it. -/
def next (d : Draws) : Nat × Draws := (d.source d.used, { d with used := d.used + 1 })

/-- A number below `n`, for a positive `n`. -/
def below (d : Draws) (n : Nat) : Nat × Draws := (d.source d.used % n, { d with used := d.used + 1 })

/-- `n` numbers in the order of their draw. -/
def take : Nat → Draws → List Nat × Draws
  | 0, d => ([], d)
  | n + 1, d =>
    let (x, d) := d.next
    let (xs, d) := take n d
    (x :: xs, d)

theorem below_lt (d : Draws) {n : Nat} (h : 0 < n) : (d.below n).1 < n := Nat.mod_lt _ h

theorem length_take (n : Nat) (d : Draws) : (take n d).1.length = n := by
  induction n generalizing d with
  | zero => rfl
  | succ n ih => simp [take, ih]

/-- A supply that starts at `seed` and steps through the residues of a full-period rule. -/
def ofSeed (seed : Nat) : Draws :=
  ⟨fun i => (seed + (i + 1) * 2654435761) % 4294967296, 0⟩

end Draws

end Lagmeter
