import Lagmeter.Number.Layout
import Lagmeter.Number.Numeral
import Lagmeter.Text.Blank

/-!
# Spans of time

A span is a whole number of nanoseconds. It can be read from a text such as `1.5s`, written
roughly for people, and written exactly.
-/

namespace Lagmeter

structure Span where
  nanos : Nat
  deriving DecidableEq, Inhabited, Repr

namespace Span

def ofMillis (ms : Nat) : Span := ⟨ms * 1000000⟩

def ofSeconds (s : Nat) : Span := ⟨s * 1000000000⟩

def isZero (d : Span) : Bool := d.nanos = 0

def micros (d : Span) : Nat := d.nanos / 1000

def times (d : Span) (n : Nat) : Span := ⟨d.nanos * n⟩

/-- Seconds as a fraction: whole seconds and the rest are rounded one by one and then added. -/
def seconds (d : Span) : Float :=
  Double.floatOfNat (d.nanos / 1000000000) + Double.floatOfNat (d.nanos % 1000000000) / 1e9

/-! ## Writing roughly -/

/-- Two places and the unit that keeps the number small. -/
def rough (d : Span) : String :=
  if d.nanos < 1000 then toString d.nanos ++ "ns"
  else if d.nanos < 1000000 then
    fixed 2 (.ofFloat (Double.floatOfNat d.nanos / 1000)) ++ "μs"
  else if d.nanos < 1000000000 then
    fixed 2 (.ofFloat (Double.floatOfNat d.nanos / 1000000)) ++ "ms"
  else fixed 2 (.ofFloat d.seconds) ++ "s"

/-- A fractional number of nanoseconds, such as a mean. -/
def roughNanos (ns : Double) : String :=
  if !ns.isFinite || ns.toFloat < 0 || ns.toFloat < 1000 then fixed 2 ns ++ "ns"
  else rough ⟨ns.nearestWord⟩

/-! ## Writing exactly -/

/-- `whole` units and `part` of `10 ^ places` parts, without zeros at the end. -/
def exactParts (whole part places : Nat) : String :=
  let digits := toString part
  let padded := (zeros (places - digits.length) ++ digits).toList
  let kept := (padded.reverse.dropWhile (· = '0')).reverse
  toString whole ++ if kept = [] then "" else "." ++ String.ofList kept

/-- The whole value in the largest unit that it reaches. -/
def exact (d : Span) : String :=
  if 1000000000 ≤ d.nanos then exactParts (d.nanos / 1000000000) (d.nanos % 1000000000) 9 ++ "s"
  else if 1000000 ≤ d.nanos then exactParts (d.nanos / 1000000) (d.nanos % 1000000) 6 ++ "ms"
  else if 1000 ≤ d.nanos then exactParts (d.nanos / 1000) (d.nanos % 1000) 3 ++ "µs"
  else toString d.nanos ++ "ns"

/-! ## Reading -/

inductive ReadError where
  | empty
  | badNumber (text : String)
  | negative (text : String)
  deriving DecidableEq, Repr

def ReadError.message : ReadError → String
  | .empty => "Duration cannot be empty"
  | .badNumber text => "Invalid number in duration: " ++ text
  | .negative text => "Duration must be a non-negative number: " ++ text

/-- The units of a span. A text without unit means seconds. -/
inductive Scale where
  | millis
  | seconds
  | minutes
  | hours
  deriving DecidableEq

def Scale.nanos : Scale → Nat
  | .millis => 1000000
  | .seconds => 1000000000
  | .minutes => 60000000000
  | .hours => 3600000000000

/-- The text before the unit, and the unit. `ms` is tried before its last letter. -/
def splitUnit (cs : List Char) : List Char × Scale :=
  match cs.reverse with
  | 's' :: 'm' :: number => (number.reverse, .millis)
  | 's' :: number => (number.reverse, .seconds)
  | 'm' :: number => (number.reverse, .minutes)
  | 'h' :: number => (number.reverse, .hours)
  | _ => (cs, .seconds)

/-- `number` units, rounded to whole nanoseconds and clamped to 64 bits. -/
def ofUnits (number : Double) (unit : Scale) : Span := ⟨(number.times (.ofNat unit.nanos)).nearestWord⟩

/-- Reads a number with an optional unit, with blanks around it. -/
def read (text : String) : Except ReadError Span :=
  let cs := trimBlanks text.toList
  if cs = [] then .error .empty
  else
    let (number, unit) := splitUnit cs
    match readNumeral? number with
    | none => .error (.badNumber (String.ofList number))
    | some x =>
      if !x.isFinite || x.isBelowZero then .error (.negative (String.ofList cs))
      else .ok (ofUnits x unit)

end Span

/-- A rate per second, in thousands or millions where that keeps it small. -/
def roughRate (perSecond : Double) : String :=
  let r := perSecond.toFloat
  if 1000000 ≤ r then fixed 2 (.ofFloat (r / 1000000)) ++ "M ops/s"
  else if 1000 ≤ r then fixed 2 (.ofFloat (r / 1000)) ++ "K ops/s"
  else fixed 2 perSecond ++ " ops/s"

end Lagmeter
