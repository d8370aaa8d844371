import Lagmeter.Json.Record

/-!
# Latency histograms

A histogram counts samples in cells. Below 2048 every value has a cell of its own. Above, each
doubling has 1024 cells of equal width, so that a cell knows a value to three decimal figures. A
cell is named by its lowest value.
-/

namespace Lagmeter

namespace Cell

def top : Nat := Nat.pow 2 64 - 1

/-- How many doublings a value lies above the cells of width one. -/
def level (v : Nat) : Nat := Nat.log2 (max v 2047) - 10

/-- The width of the cell of a value. -/
def width (v : Nat) : Nat := Nat.pow 2 (level v)

/-- The lowest value of the cell of a value. -/
def lowest (v : Nat) : Nat := v / width v * width v

/-- The highest value of the cell of a value. The last cell ends one short of the largest value,
which stands for itself. -/
def highest (v : Nat) : Nat := if v = top then top else min (lowest v + width v) top - 1

/-- The middle of the cell of a value. -/
def middle (v : Nat) : Nat := lowest v + width v / 2

end Cell

/-- Counted cells in increasing order, and the smallest and the largest sample. -/
structure Histogram where
  cells : List (Nat × Nat) := []
  smallest : Nat := Cell.top
  largest : Nat := 0
  deriving DecidableEq, Inhabited

namespace Histogram

def empty : Histogram := {}

/-- Counts one more value in the cell that starts at `low`. -/
def count (low : Nat) : List (Nat × Nat) → List (Nat × Nat)
  | [] => [(low, 1)]
  | (cell, n) :: rest =>
    if low < cell then (low, 1) :: (cell, n) :: rest
    else if low = cell then (cell, n + 1) :: rest
    else (cell, n) :: count low rest

def record (h : Histogram) (v : Nat) : Histogram :=
  ⟨count (Cell.lowest v) h.cells, min h.smallest v, max h.largest v⟩

def ofSamples (vs : List Nat) : Histogram := vs.foldl record empty

/-! ## Figures -/

def total (h : Histogram) : Nat := (h.cells.map Prod.snd).foldr (· + ·) 0

def isEmpty (h : Histogram) : Bool := h.total = 0

/-- The lowest value of the cell of the smallest sample. The largest value stands for itself. -/
def min (h : Histogram) : Nat :=
  if h.isEmpty then 0 else if h.smallest = Cell.top then Cell.top else Cell.lowest h.smallest

def max (h : Histogram) : Nat := if h.largest = 0 then 0 else Cell.highest h.largest

/-- The mean of the middles of the cells. Each cell's part is divided before it is added. -/
def meanFloat (h : Histogram) : Float :=
  if h.isEmpty then 0
  else
    let total := Double.floatOfNat h.total
    h.cells.foldl (fun sum (low, n) =>
      sum + Double.floatOfNat (Cell.middle low) * Double.floatOfNat n / total) 0

def mean (h : Histogram) : Double := .ofFloat h.meanFloat

def deviation (h : Histogram) : Double :=
  if h.isEmpty then .zero
  else
    let mean := h.meanFloat
    let squares := h.cells.foldl (fun sum (low, n) =>
      let distance := Double.floatOfNat (Cell.middle low) - mean
      sum + distance * distance * Double.floatOfNat n) 0
    .ofFloat (squares / Double.floatOfNat h.total).sqrt

/-- The first cell by which `wanted` samples are counted. -/
def reach (wanted : Nat) : Nat → List (Nat × Nat) → Option Nat
  | _, [] => none
  | seen, (low, n) :: rest => if wanted ≤ seen + n then some low else reach wanted (seen + n) rest

/-- How many samples a fraction of them all is: at least one, and any part counts as a whole. -/
def wanted (h : Histogram) (fraction : Float) : Nat :=
  Nat.max (Double.wordOf (fraction * Double.floatOfNat h.total).ceil).toNat 1

/-- The value below which `percent` of the samples lie: the end of a cell, or its start for zero. -/
def percentile (h : Histogram) (percent : Double) : Nat :=
  let fraction := percent.toFloat / 100
  let fraction := if 1 < fraction then 1 else fraction
  match reach (h.wanted fraction) 0 h.cells with
  | none => 0
  | some low => if fraction == 0 then low else Cell.highest low

end Histogram

/-! ## Summaries -/

/-- A percentile, and the value that stands for it. -/
structure PercentileValue where
  percent : Double
  value : Nat
  deriving DecidableEq, Inhabited

namespace PercentileValue

def toJson (v : PercentileValue) : Json :=
  .record [("percentile", .ofDouble v.percent), ("value_ns", .ofNat v.value)]

def ofJson? (j : Json) : Option PercentileValue := do
  match ← j.fields? ["percentile", "value_ns"] with
  | [percent, value] =>
    return ⟨← Json.required? Json.double? percent, ← Json.required? Json.word? value⟩
  | _ => none

end PercentileValue

/-- What a reader's log tells of a histogram. -/
structure HistogramSummary where
  min : Nat
  max : Nat
  mean : Double
  deviation : Double
  percentiles : List PercentileValue
  total : Nat
  deriving DecidableEq, Inhabited

def Histogram.summary (h : Histogram) (percents : List Double) : HistogramSummary where
  min := h.min
  max := h.max
  mean := h.mean
  deviation := h.deviation
  percentiles := percents.map fun p => ⟨p, h.percentile p⟩
  total := h.total

namespace HistogramSummary

def names : List String :=
  ["min_ns", "max_ns", "mean_ns", "std_dev_ns", "percentiles", "total_samples"]

def toJson (s : HistogramSummary) : Json :=
  .record [("min_ns", .ofNat s.min), ("max_ns", .ofNat s.max), ("mean_ns", .ofDouble s.mean),
    ("std_dev_ns", .ofDouble s.deviation),
    ("percentiles", .ofList PercentileValue.toJson s.percentiles),
    ("total_samples", .ofNat s.total)]

def ofJson? (j : Json) : Option HistogramSummary := do
  match ← j.fields? names with
  | [min, max, mean, deviation, percentiles, total] =>
    return ⟨← Json.required? Json.word? min, ← Json.required? Json.word? max,
      ← Json.required? Json.double? mean, ← Json.required? Json.double? deviation,
      ← Json.required? (Json.items? PercentileValue.ofJson?) percentiles,
      ← Json.required? Json.word? total⟩
  | _ => none

end HistogramSummary

end Lagmeter
