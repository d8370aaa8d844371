import Lagmeter.Json.Record
import Lagmeter.Time.Span

/-!
# Write rates
-/

namespace Lagmeter

/-- How many operations were done in how long. -/
structure Throughput where
  perSecond : Double
  operations : Nat
  nanos : Nat
  deriving DecidableEq, Inhabited

namespace Throughput

/-- The rate of operations over a span. Over no time it is zero. -/
def ofCount (operations : Nat) (span : Span) : Throughput :=
  let seconds := span.seconds
  ⟨.ofFloat (if 0 < seconds then Double.floatOfNat operations / seconds else 0), operations,
    span.nanos⟩

def toJson (t : Throughput) : Json :=
  .record [("operations_per_second", .ofDouble t.perSecond),
    ("total_operations", .ofNat t.operations), ("duration_ns", .ofNat t.nanos)]

def ofJson? (j : Json) : Option Throughput := do
  match ← j.fields? ["operations_per_second", "total_operations", "duration_ns"] with
  | [perSecond, operations, nanos] =>
    return ⟨← Json.required? Json.double? perSecond, ← Json.required? Json.word? operations,
      ← Json.required? Json.word? nanos⟩
  | _ => none

end Throughput

end Lagmeter
