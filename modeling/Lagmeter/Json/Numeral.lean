import Lagmeter.Json.Basic
import Lagmeter.Number.Layout
import Lagmeter.Number.Numeral

/-!
# What a JSON number means

A number without point and power is a whole number where 64 bits hold it. Every other number is
a double: its first digits, as many as 64 bits hold, are rounded to a double, which is then
multiplied or divided once by a power of ten. A number beyond the range of doubles means nothing.
-/

namespace Lagmeter

/-- The meaning of a JSON number. `minus n` is a negative whole number. -/
inductive Numeral where
  | whole (n : Nat)
  | minus (n : Nat)
  | real (x : Double)
  deriving DecidableEq

namespace Numeral

def maxWord : Nat := Nat.pow 2 64 - 1

/-- Appends digits to `n` as long as a word holds the result. The digits that do not fit are left
over. -/
def keep (n : Nat) : List Char → Nat × List Char
  | [] => (n, [])
  | c :: rest =>
    let longer := 10 * n + (c.toNat - '0'.toNat)
    if longer ≤ maxWord then keep longer rest else (n, c :: rest)

def powerOfTen (k : Nat) : Double := .ofDecimal 1 k

/-- `x / 10 ^ k`. A power beyond the range of doubles is divided out in steps. Three steps bring
every word to zero. -/
def divided : Nat → Double → Nat → Double
  | 0, x, _ => x
  | fuel + 1, x, k =>
    if k ≤ 308 then x.quotient (powerOfTen k)
    else if x.isZero then x
    else divided fuel (x.quotient (powerOfTen 308)) (k - 308)

/-- `significand * 10 ^ exponent`, or nothing beyond the range of doubles. -/
def scaled? (significand : Nat) (exponent : Int) : Option Double :=
  let x := Double.ofNat significand
  if exponent < 0 then some (divided 4 x exponent.natAbs)
  else if 308 < exponent then if significand = 0 then some .zero else none
  else
    let x := x.times (powerOfTen exponent.toNat)
    if x.isInfinite then none else some x

/-- A power that no 32 bits hold makes zero of every number, if it is negative, and of zero. -/
def beyond? (significand : Nat) (negative : Bool) : Option Double :=
  if significand ≠ 0 ∧ !negative then none else some .zero

/-- The sign and the digits of the power of ten. -/
def powerParts : List Char → Bool × List Char
  | _ :: '-' :: ds => (true, ds)
  | _ :: '+' :: ds => (false, ds)
  | _ :: ds => (false, ds)
  | [] => (false, [])

/-- A magnitude with a point or a power, or too long for a word. `head` are the digits before the
point, `part` those after it, `power` is what follows. -/
def magnitude? (head part power : List Char) : Option Double :=
  let (start, dropped) := keep 0 head
  let (significand, unused) := keep start part
  let exponent : Int := (dropped.length : Int) - ((part.length - unused.length : Nat) : Int)
  let (negative, ds) := powerParts power
  let p := digitsValue ds
  if Nat.pow 2 31 ≤ p then beyond? significand negative
  else scaled? significand (if negative then exponent - p else exponent + p)

/-- The meaning of a number that is spelled by the grammar of JSON. -/
def ofLexeme? (lexeme : List Char) : Option Numeral :=
  let (negative, cs) := minusRun lexeme
  let (head, rest) := digitRun cs
  let (part, power) := fractionRun rest
  let n := digitsValue head
  if rest = [] ∧ !negative ∧ n ≤ maxWord then some (.whole n)
  else if rest = [] ∧ negative ∧ 0 < n ∧ n ≤ Nat.pow 2 63 then some (.minus n)
  else (magnitude? head part power).map fun x => .real (x.withSign negative)

end Numeral

namespace Json

/-! ## Values from numbers and back -/

def ofNat (n : Nat) : Json := .number (toString n).toList

def ofInt (i : Int) : Json := .number (toString i).toList

/-- A finite number in the layout of structured data. Other numbers become `null`. -/
def ofDouble (x : Double) : Json :=
  if x.isFinite then .number (Layout.data.write x).toList else .null

def numeral? : Json → Option Numeral
  | .number lexeme => Numeral.ofLexeme? lexeme
  | _ => none

/-- A whole number that is not negative and at most `limit`. -/
def natUpTo? (limit : Nat) (j : Json) : Option Nat :=
  match j.numeral? with
  | some (.whole n) => if n ≤ limit then some n else none
  | _ => none

def word? (j : Json) : Option Nat := j.natUpTo? Numeral.maxWord

/-- A whole number between `-2 ^ 63` and `2 ^ 63 - 1`. -/
def integer? (j : Json) : Option Int :=
  match j.numeral? with
  | some (.whole n) => if n < Nat.pow 2 63 then some n else none
  | some (.minus n) => some (-(n : Int))
  | _ => none

def double? (j : Json) : Option Double :=
  match j.numeral? with
  | some (.whole n) => some (.ofNat n)
  | some (.minus n) => some (Double.ofNat n).negate
  | some (.real x) => some x
  | none => none

end Json

end Lagmeter
