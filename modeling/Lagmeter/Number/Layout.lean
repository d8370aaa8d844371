import Lagmeter.Number.Shortest

/-!
# How a number is written

A `Layout` holds the decisions of one way to write a double with the fewest digits. `fixed`
writes a given number of places. The two never use an exponent and a point in the same way, so
they are kept apart.
-/

namespace Lagmeter

structure Layout where
  /-- Which of two equally near digit strings is taken. -/
  tie : Tie
  /-- Whether a number whose decimal point stands at this position is written without exponent. -/
  positional : Int → Bool
  /-- What follows a whole number written without exponent. -/
  wholeSuffix : String

namespace Layout

/-- Plain text for people: never an exponent, and no point in a whole number. -/
def plain : Layout := ⟨.up, fun _ => true, ""⟩

/-- Structured data: no exponent from `0.00001` up to sixteen digits before the point, and a whole
number keeps its `.0`. -/
def data : Layout := ⟨.toEven, fun k => -5 < k && k ≤ 16, ".0"⟩

end Layout

def zeros (n : Nat) : String := String.ofList (List.replicate n '0')

/-- Digits with the point after the first `k` of them. -/
def placed (digits : String) (k : Int) (wholeSuffix : String) : String :=
  let length : Int := digits.length
  if k ≤ 0 then "0." ++ zeros (-k).toNat ++ digits
  else if length ≤ k then digits ++ zeros (k - length).toNat ++ wholeSuffix
  else
    let cs := digits.toList
    String.ofList (cs.take k.toNat) ++ "." ++ String.ofList (cs.drop k.toNat)

/-- One digit before the point, the others after it, and the power of ten. -/
def scientific (digits : String) (k : Int) : String :=
  match digits.toList with
  | [] => ""
  | [c] => String.ofList [c] ++ "e" ++ toString (k - 1)
  | c :: cs => String.ofList (c :: '.' :: cs) ++ "e" ++ toString (k - 1)

def signText (x : Double) : String := if x.isNegative then "-" else ""

def Layout.write (layout : Layout) (x : Double) : String :=
  if x.isNaN then "NaN"
  else if x.isInfinite then signText x ++ "inf"
  else if x.isZero then signText x ++ "0" ++ layout.wholeSuffix
  else
    let d := x.shortest layout.tie
    let digits := toString d.digits
    let k := (digits.length : Int) + d.exponent
    signText x ++
      if layout.positional k then placed digits k layout.wholeSuffix else scientific digits k

/-- A whole number of `10 ^ (-places)` parts with that many places. -/
def fixedParts (places n : Nat) : String :=
  let digits := toString n
  let padded := (zeros (places + 1 - digits.length) ++ digits).toList
  let whole := padded.length - places
  String.ofList (padded.take whole) ++
    if places = 0 then "" else "." ++ String.ofList (padded.drop whole)

/-- The exact value with the given number of places, a half to the even neighbour. -/
def fixed (places : Nat) (x : Double) : String :=
  if x.isNaN then "NaN"
  else if x.isInfinite then signText x ++ "inf"
  else
    let (n, d) := x.ratio
    signText x ++ fixedParts places (Double.roundedQuotient (n * Nat.pow 10 places) d)

end Lagmeter
