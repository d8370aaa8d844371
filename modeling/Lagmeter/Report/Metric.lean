import Lagmeter.Json.Record

/-!
# Metrics

A metric is a named value of a run. In structured data its value stands alone, so its shape has to
tell whether it is a whole number, another number or a text.
-/

namespace Lagmeter

inductive MetricValue where
  | integer (n : Int64)
  | real (x : Double)
  | text (s : String)
  deriving DecidableEq, Inhabited

namespace MetricValue

def display : MetricValue → String
  | .integer n => toString n.toInt
  | .real x => fixed 3 x
  | .text s => s

def toJson : MetricValue → Json
  | .integer n => .ofInt n.toInt
  | .real x => .ofDouble x
  | .text s => .ofText s

/-- A whole number of 64 bits, or any other number, or a text. -/
def ofJson? (j : Json) : Option MetricValue :=
  (j.integer?.map fun n => .integer (Int64.ofInt n)) <|> (j.double?.map .real) <|>
    (j.text?.map .text)

/-- A count. Counts beyond 63 bits wrap around. -/
def ofNat (n : Nat) : MetricValue := .integer (Int64.ofInt n)

end MetricValue

structure Metric where
  name : String
  value : MetricValue
  deriving DecidableEq, Inhabited

namespace Metric

def toJson (m : Metric) : Json := .record [("name", .ofText m.name), ("value", m.value.toJson)]

def ofJson? (j : Json) : Option Metric := do
  match ← j.fields? ["name", "value"] with
  | [name, value] =>
    return ⟨← Json.required? Json.text? name, ← Json.required? MetricValue.ofJson? value⟩
  | _ => none

/-- The name in a column of its own, and the value. -/
def line (m : Metric) : String :=
  "  " ++ m.name ++ String.ofList (List.replicate (28 - m.name.length) ' ') ++ " " ++ m.value.display

end Metric

end Lagmeter
