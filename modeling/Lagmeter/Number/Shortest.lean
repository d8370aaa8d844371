import Lagmeter.Number.Double

/-!
# The fewest digits that read back

Every decimal number in the interval of reals that round to a double reads back as that double.
`Double.shortest` finds, among the numbers in that interval with the fewest digits, the one
nearest to the exact value. All comparisons are between natural numbers.
-/

namespace Lagmeter

structure Decimal where
  digits : Nat
  exponent : Int
  deriving DecidableEq, Repr, Inhabited

/-- What to do with a number that lies exactly between two candidates. -/
inductive Tie where
  | toEven
  | up
  deriving DecidableEq

/-! ## Comparing a multiple of a power of two with a multiple of a power of ten -/

/-- Both sides of `a * 2 ^ e` against `c * 10 ^ p`, multiplied out. -/
def crossed (a : Nat) (e : Int) (c : Nat) (p : Int) : Nat × Nat :=
  (a * Nat.pow 2 e.toNat * Nat.pow 10 (-p).toNat, c * Nat.pow 10 p.toNat * Nat.pow 2 (-e).toNat)

def binaryLe (a : Nat) (e : Int) (c : Nat) (p : Int) : Bool :=
  (crossed a e c p).1 ≤ (crossed a e c p).2

def decimalLe (c : Nat) (p : Int) (a : Nat) (e : Int) : Bool :=
  (crossed a e c p).2 ≤ (crossed a e c p).1

namespace Double

/-! ## The interval that reads back -/

/-- The interval in quarters of the last place: `(low, value, high)`, each to be multiplied by
`2 ^ (scale - 2)`. Below a power of two the neighbour is half as far. -/
def quarters (x : Double) : Nat × Nat × Nat :=
  let v := 4 * x.significand
  let below := if x.fraction = 0 ∧ 1 < x.exponentField then 1 else 2
  (v - below, v, v + 2)

/-- Whether `c * 10 ^ p` rounds to the magnitude of `x`. The ends belong to the interval when the
significand is even. -/
def readsBack (x : Double) (c : Nat) (p : Int) : Bool :=
  let (low, _, high) := x.quarters
  let e := x.scale - 2
  if x.significand % 2 = 0 then binaryLe low e c p && decimalLe c p high e
  else !decimalLe c p low e && !binaryLe high e c p

/-! ## The grids of one, two, three … digits -/

/-- How many places `n / d < 1` must move to the left of the point before it reaches 1. -/
def leadingPlaces (d : Nat) : Nat → Nat → Nat
  | 0, _ => 0
  | fuel + 1, n => if d ≤ n then 0 else leadingPlaces d fuel (10 * n) + 1

/-- The `k` with `10 ^ (k - 1) ≤ n / d < 10 ^ k`, for a positive double. -/
def pointPosition (n d : Nat) : Int :=
  if d ≤ n then (Nat.toDigits 10 (n / d)).length else 1 - (leadingPlaces d 400 n : Int)

/-- The two neighbours of the value on the grid of `count` digits: the lower one, the grid's
exponent, and how twice the remainder compares with the step. -/
def neighbours (x : Double) (k : Int) (count : Nat) : Nat × Int × Ordering :=
  let p := k - count
  let (n, d) := x.ratio
  let n := n * Nat.pow 10 (-p).toNat
  let d := d * Nat.pow 10 p.toNat
  (n / d, p, compare (2 * (n % d)) d)

/-- The nearest point of the grid of `count` digits that reads back, if there is one. -/
def nearestOn (x : Double) (tie : Tie) (k : Int) (count : Nat) : Option Decimal :=
  let (c, p, half) := x.neighbours k count
  let lower := x.readsBack c p
  let upper := x.readsBack (c + 1) p
  let upperNearer := match half, tie with
    | .gt, _ => true
    | .eq, .up => true
    | .eq, .toEven => c % 2 = 1
    | .lt, _ => false
  if upper && (upperNearer || !lower) then some ⟨c + 1, p⟩
  else if lower then some ⟨c, p⟩
  else none

/-- The first grid, from `count` digits on, that has a point which reads back. -/
def firstGrid (x : Double) (tie : Tie) (k : Int) : Nat → Nat → Option Decimal
  | 0, _ => none
  | fuel + 1, count => x.nearestOn tie k count <|> firstGrid x tie k fuel (count + 1)

end Double

def Decimal.trimmed : Nat → Decimal → Decimal
  | 0, d => d
  | fuel + 1, d => if d.digits % 10 = 0 then trimmed fuel ⟨d.digits / 10, d.exponent + 1⟩ else d

/-- The fewest digits that read back as the magnitude of a finite number, and the nearest of
those. Seventeen digits always suffice. -/
def Double.shortest (x : Double) (tie : Tie) : Decimal :=
  if x.isZero then ⟨0, 0⟩
  else
    let (n, d) := x.ratio
    match x.firstGrid tie (pointPosition n d) 17 1 with
    | some decimal => decimal.trimmed 20
    | none => ⟨n, 0⟩

end Lagmeter
