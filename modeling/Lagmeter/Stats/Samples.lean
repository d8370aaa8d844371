import Lagmeter.Json.Record

/-!
# Statistics of latency samples

The samples of a set are kept in increasing order. A percentile is one of them: the one at the
place `⌊n * p⌋`, or the last one.
-/

namespace Lagmeter

inductive StatsError where
  | empty
  | outsidePercentile (p : Double)
  deriving DecidableEq

def StatsError.message : StatsError → String
  | .empty => "cannot compute statistics over an empty sample set"
  | .outsidePercentile p => s!"percentile {Layout.plain.write p} is outside [0, 1]"

/-- The figures that a report gives for a set of samples, in nanoseconds. -/
structure Summary where
  count : Nat
  mean : Double
  deviation : Double
  min : Nat
  max : Nat
  p50 : Nat
  p90 : Nat
  p95 : Nat
  p99 : Nat
  p9999 : Nat
  deriving DecidableEq, Inhabited

/-- A set of samples that is not empty, in increasing order. -/
structure Samples where
  sorted : List Nat
  ne_nil : sorted ≠ []

namespace Samples

theorem mergeSort_ne_nil {xs : List Nat} (h : xs ≠ []) : xs.mergeSort (· ≤ ·) ≠ [] := by
  intro sorted
  have := congrArg List.length sorted
  rw [List.length_mergeSort] at this
  exact h (List.length_eq_zero_iff.1 this)

def ofList (xs : List Nat) : Except StatsError Samples :=
  if h : xs = [] then .error .empty else .ok ⟨xs.mergeSort (· ≤ ·), mergeSort_ne_nil h⟩

def count (s : Samples) : Nat := s.sorted.length

def min (s : Samples) : Nat := s.sorted.head s.ne_nil

def max (s : Samples) : Nat := s.sorted.getLast s.ne_nil

/-! ## Mean and deviation -/

def meanFloat (s : Samples) : Float :=
  Double.floatOfNat (s.sorted.foldr (· + ·) 0) / Double.floatOfNat s.count

def mean (s : Samples) : Double := .ofFloat s.meanFloat

/-- The square of a sample's distance from the mean. -/
def squaredDistance (mean : Float) (x : Nat) : Float :=
  (Double.floatOfNat x - mean) * (Double.floatOfNat x - mean)

/-- The deviation of the whole set. The squares are added in increasing order of the samples. -/
def deviation (s : Samples) : Double :=
  let mean := s.meanFloat
  let total := s.sorted.foldl (fun total x => total + squaredDistance mean x) 0
  .ofFloat (total / Double.floatOfNat s.count).sqrt

/-! ## Percentiles -/

/-- The place of a percentile among `n` samples, before it is cut to the last one. -/
def place (n : Nat) (p : Double) : Nat := ((Double.ofNat n).times p).wholeWord

/-- Whether `p` is a fraction from 0 to 1. A zero is one with either sign. -/
def isFraction (p : Double) : Bool :=
  p.isZero || (!p.isNegative && p.isFinite && p.ratio.1 ≤ p.ratio.2)

theorem min_lt_length (s : Samples) (k : Nat) : Min.min k (s.sorted.length - 1) < s.sorted.length := by
  have := List.length_pos_iff.2 s.ne_nil
  omega

/-- The sample at a place, or the last one. -/
def atPlace (s : Samples) (k : Nat) : Nat := s.sorted.get ⟨Min.min k (s.sorted.length - 1), s.min_lt_length k⟩

def percentile (s : Samples) (p : Double) : Except StatsError Nat :=
  if isFraction p then .ok (s.atPlace (place s.count p)) else .error (.outsidePercentile p)

def percentileOrMax (s : Samples) (p : Double) : Nat :=
  match s.percentile p with
  | .ok x => x
  | .error _ => s.max

def summary (s : Samples) : Summary where
  count := s.count
  mean := s.mean
  deviation := s.deviation
  min := s.min
  max := s.max
  p50 := s.percentileOrMax 0.50
  p90 := s.percentileOrMax 0.90
  p95 := s.percentileOrMax 0.95
  p99 := s.percentileOrMax 0.99
  p9999 := s.percentileOrMax 0.9999

end Samples

namespace Summary

def names : List String :=
  ["count", "mean_ns", "std_dev_ns", "min_ns", "max_ns", "p50_ns", "p90_ns", "p95_ns", "p99_ns",
    "p9999_ns"]

def toJson (s : Summary) : Json :=
  .record [("count", .ofNat s.count), ("mean_ns", .ofDouble s.mean),
    ("std_dev_ns", .ofDouble s.deviation), ("min_ns", .ofNat s.min), ("max_ns", .ofNat s.max),
    ("p50_ns", .ofNat s.p50), ("p90_ns", .ofNat s.p90), ("p95_ns", .ofNat s.p95),
    ("p99_ns", .ofNat s.p99), ("p9999_ns", .ofNat s.p9999)]

def ofJson? (j : Json) : Option Summary := do
  match ← j.fields? names with
  | [count, mean, deviation, min, max, p50, p90, p95, p99, p9999] =>
    let word := Json.required? Json.word?
    let real := Json.required? Json.double?
    return ⟨← word count, ← real mean, ← real deviation, ← word min, ← word max, ← word p50,
      ← word p90, ← word p95, ← word p99, ← word p9999⟩
  | _ => none

end Summary

end Lagmeter
