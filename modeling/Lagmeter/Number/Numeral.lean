import Lagmeter.Number.Double

/-!
# Reading a decimal numeral

A numeral is an optional sign and then digits with an optional point and an optional power of
ten, or one of the words `inf`, `infinity` and `nan` in any case. It is read as the nearest
double.
-/

namespace Lagmeter

/-- The digits at the start of a text, and what follows them. -/
def digitRun (cs : List Char) : List Char × List Char :=
  (cs.takeWhile Char.isDigit, cs.dropWhile Char.isDigit)

def digitsValue (ds : List Char) : Nat :=
  ds.foldl (fun v c => 10 * v + (c.toNat - '0'.toNat)) 0

/-- A whole number that is written with digits only, with a leading `+` allowed. -/
def readWhole? (cs : List Char) : Option Nat :=
  let ds := match cs with
    | '+' :: rest => rest
    | _ => cs
  if ds ≠ [] ∧ ds.all Char.isDigit then some (digitsValue ds) else none

/-- The power of ten at the end of a numeral: nothing, or `e` and a whole number with a sign. -/
def readPower? : List Char → Option Int
  | [] => some 0
  | e :: rest =>
    if e = 'e' ∨ e = 'E' then
      match rest with
      | '-' :: ds => if ds ≠ [] ∧ ds.all Char.isDigit then some (-(digitsValue ds : Int)) else none
      | _ => (readWhole? rest).map Int.ofNat
    else none

/-- Whether a text starts with a minus, and what follows it. -/
def minusRun : List Char → Bool × List Char
  | '-' :: rest => (true, rest)
  | rest => (false, rest)

/-- The digits after the point, if there is a point, and what follows them. -/
def fractionRun : List Char → List Char × List Char
  | '.' :: rest => digitRun rest
  | rest => ([], rest)

def readMagnitude? (cs : List Char) : Option Double :=
  let (whole, rest) := digitRun cs
  let (part, rest) := fractionRun rest
  if whole = [] ∧ part = [] then none
  else (readPower? rest).map fun power =>
    Double.ofDecimal (digitsValue (whole ++ part)) (power - part.length)

/-- The words that stand for no finite number. -/
def readWord? (cs : List Char) : Option Double :=
  let word := String.ofList (cs.map Char.toLower)
  if word = "inf" ∨ word = "infinity" then some Double.infinity
  else if word = "nan" then some Double.nan
  else none

/-- The number that a numeral stands for, or nothing if the text is no numeral. -/
def readNumeral? (cs : List Char) : Option Double :=
  let unsigned := fun (ds : List Char) => readWord? ds <|> readMagnitude? ds
  match cs with
  | '-' :: rest => (unsigned rest).map Double.negate
  | '+' :: rest => unsigned rest
  | _ => unsigned cs

end Lagmeter
