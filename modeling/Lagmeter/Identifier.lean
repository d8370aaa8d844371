import Lagmeter.Json.Basic

/-!
# Identifiers

An identifier is a word of 128 bits. The one without any bit set stands for none.
-/

namespace Lagmeter

structure Identifier where
  high : UInt64
  low : UInt64
  deriving DecidableEq, Inhabited

namespace Identifier

def zero : Identifier := ⟨0, 0⟩

def digits : Nat → Nat → List Char
  | 0, _ => []
  | count + 1, n => digits count (n / 16) ++ [Json.hexDigit (n % 16)]

/-- Five groups of digits with hyphens between them. -/
def text (i : Identifier) : String :=
  let high := i.high.toNat
  let low := i.low.toNat
  "-".intercalate ([digits 8 (high / Nat.pow 2 32), digits 4 (high / Nat.pow 2 16), digits 4 high,
    digits 4 (low / Nat.pow 2 48), digits 12 low].map String.ofList)

def read? (s : String) : Option Identifier := do
  let values ← (s.toList.filter (· ≠ '-')).mapM Json.hexValue?
  if values.length = 32 then
    let number := fun (vs : List Nat) => UInt64.ofNat (vs.foldl (fun n v => 16 * n + v) 0)
    some ⟨number (values.take 16), number (values.drop 16)⟩
  else none

/-! ## As two words -/

def toWords (id : Option Identifier) : List Int64 :=
  let i := id.getD zero
  [i.high.toInt64, i.low.toInt64]

def ofPair (high low : Int64) : Option Identifier :=
  let i : Identifier := ⟨high.toUInt64, low.toUInt64⟩
  if i = zero then none else some i

/-- The identifiers in a list of words. A word without partner is dropped. -/
def ofWords : List Int64 → List (Option Identifier)
  | high :: low :: rest => ofPair high low :: ofWords rest
  | _ => []

end Identifier

end Lagmeter
