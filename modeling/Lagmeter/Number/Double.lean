/-!
# Double-precision numbers by their bits

A `Double` is the 64 bits of a number, so that two of them can be told apart, stored and sent
without loss. Arithmetic goes through `Float`. The rounding of an exact fraction to a double is
done here in natural numbers.
-/

namespace Lagmeter

/-- A double-precision number: one sign bit, eleven exponent bits and 52 fraction bits. -/
structure Double where
  bits : UInt64
  deriving DecidableEq, Inhabited

namespace Double

/-! ## The three fields -/

def isNegative (x : Double) : Bool := x.bits.toNat ≥ Nat.pow 2 63

def exponentField (x : Double) : Nat := x.bits.toNat / Nat.pow 2 52 % Nat.pow 2 11

def fraction (x : Double) : Nat := x.bits.toNat % Nat.pow 2 52

def isFinite (x : Double) : Bool := x.exponentField ≠ 2047

def isNaN (x : Double) : Bool := x.exponentField = 2047 ∧ x.fraction ≠ 0

def isInfinite (x : Double) : Bool := x.exponentField = 2047 ∧ x.fraction = 0

def isZero (x : Double) : Bool := x.bits.toNat % Nat.pow 2 63 = 0

/-- Whether a number that is not NaN is below zero. The zero with a sign is not. -/
def isBelowZero (x : Double) : Bool := x.isNegative && !x.isZero

theorem isNaN_eq_false {x : Double} (h : x.isFinite = true) : x.isNaN = false := by
  simp_all [isFinite, isNaN]

theorem isInfinite_eq_false {x : Double} (h : x.isFinite = true) : x.isInfinite = false := by
  simp_all [isFinite, isInfinite]

/-! ## The exact magnitude -/

/-- The magnitude of a finite number is `significand * 2 ^ scale`. -/
def significand (x : Double) : Nat :=
  if x.exponentField = 0 then x.fraction else Nat.pow 2 52 + x.fraction

theorem significand_eq_zero_iff {x : Double} : x.significand = 0 ↔ x.isZero = true := by
  have hfield : x.exponentField = x.bits.toNat / 2 ^ 52 % 2 ^ 11 := rfl
  have hfraction : x.fraction = x.bits.toNat % 2 ^ 52 := rfl
  have hzero : x.isZero = true ↔ x.bits.toNat % 2 ^ 63 = 0 := decide_eq_true_iff
  rw [hzero, significand, show Nat.pow 2 52 = 2 ^ 52 from rfl]
  split <;> omega

def scale (x : Double) : Int :=
  if x.exponentField = 0 then -1074 else (x.exponentField : Int) - 1075

/-- Numerator and denominator of the magnitude of a finite number. -/
def ratio (x : Double) : Nat × Nat :=
  if 0 ≤ x.scale then (x.significand * Nat.pow 2 x.scale.toNat, 1)
  else (x.significand, Nat.pow 2 (-x.scale).toNat)

/-! ## Constants and signs -/

def zero : Double := ⟨0⟩

def infinity : Double := ⟨0x7ff0000000000000⟩

def nan : Double := ⟨0x7ff8000000000000⟩

def negate (x : Double) : Double := ⟨x.bits ^^^ 0x8000000000000000⟩

def withSign (negative : Bool) (x : Double) : Double := if negative then x.negate else x

/-! ## Rounding a fraction -/

/-- `n / d` to the nearest whole number, a half to the even neighbour. -/
def roundedQuotient (n d : Nat) : Nat :=
  let q := n / d
  let twice := 2 * (n % d)
  if twice > d ∨ (twice = d ∧ q % 2 = 1) then q + 1 else q

/-- The largest `e ≥ -1074` with `2 ^ 52 * 2 ^ e ≤ n / d`, or `-1074` where there is none. -/
def binaryScale (n d : Nat) : Int :=
  let guess : Int := (Nat.log2 n : Int) - Nat.log2 d - 52
  let fits : Bool :=
    if 0 ≤ guess then Nat.pow 2 52 * Nat.pow 2 guess.toNat * d ≤ n
    else Nat.pow 2 52 * d ≤ n * Nat.pow 2 (-guess).toNat
  max (if fits then guess else guess - 1) (-1074)

/-- The double nearest to `n / d`, a half to the even neighbour. Beyond the largest finite number
it is infinity. -/
def ofRatio (n d : Nat) : Double :=
  if n = 0 then zero
  else
    let e := binaryScale n d
    let q :=
      if 0 ≤ e then roundedQuotient n (d * Nat.pow 2 e.toNat)
      else roundedQuotient (n * Nat.pow 2 (-e).toNat) d
    let bits := (e + 1074).toNat * Nat.pow 2 52 + q
    if bits < 0x7ff0000000000000 then ⟨UInt64.ofNat bits⟩ else infinity

def ofNat (n : Nat) : Double := ofRatio n 1

def ofInt (i : Int) : Double := withSign (i < 0) (ofNat i.natAbs)

/-- The double nearest to `digits * 10 ^ exponent`. Far outside the range of doubles the power is
not computed: the answer is zero or infinity. -/
def ofDecimal (digits : Nat) (exponent : Int) : Double :=
  if digits = 0 then zero
  else
    let magnitude : Int := (Nat.log2 digits : Int) / 4 + exponent
    if magnitude > 400 then infinity
    else if (Nat.log2 digits : Int) / 3 + exponent < -400 then zero
    else if 0 ≤ exponent then ofRatio (digits * Nat.pow 10 exponent.toNat) 1
    else ofRatio digits (Nat.pow 10 (-exponent).toNat)

instance : OfScientific Double :=
  ⟨fun digits negative exponent => ofDecimal digits (if negative then -(exponent : Int) else exponent)⟩

/-! ## Products and quotients -/

/-- The product of two finite numbers without signs, rounded to nearest. -/
def times (x y : Double) : Double := ofRatio (x.ratio.1 * y.ratio.1) (x.ratio.2 * y.ratio.2)

/-- The quotient of two finite numbers without signs, rounded to nearest. The divisor is not zero. -/
def quotient (x y : Double) : Double := ofRatio (x.ratio.1 * y.ratio.2) (x.ratio.2 * y.ratio.1)

/-- The whole part of a number, clamped to the words of 64 bits. A NaN gives 0. -/
def wholeWord (x : Double) : Nat :=
  if x.isNaN || x.isNegative then 0
  else if x.isInfinite then Nat.pow 2 64 - 1
  else min (x.ratio.1 / x.ratio.2) (Nat.pow 2 64 - 1)

/-! ## Arithmetic -/

def toFloat (x : Double) : Float := Float.ofBits x.bits

def ofFloat (x : Float) : Double := ⟨x.toBits⟩

/-- A whole number as a `Float`, rounded to nearest. -/
def floatOfNat (n : Nat) : Float := (ofNat n).toFloat

/-- A whole number, clamped to the words of 64 bits. A NaN gives 0. -/
def wordOf (x : Float) : UInt64 := x.toUInt64

/-- The nearest whole number, a half away from zero, clamped to the words of 64 bits. A NaN gives 0. -/
def nearestWord (x : Double) : Nat :=
  if x.isNaN || x.isNegative then 0
  else if x.isInfinite then Nat.pow 2 64 - 1
  else
    let (n, d) := x.ratio
    min ((2 * n + d) / (2 * d)) (Nat.pow 2 64 - 1)

end Double

end Lagmeter
