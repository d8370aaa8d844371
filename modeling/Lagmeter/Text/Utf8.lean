/-!
# UTF-8

Texts as octets and back. The reader takes one octet at a time and keeps what it has of a
character that is not complete. It either stops at the first octet that fits nowhere, or replaces
what does not fit.
-/

namespace Lagmeter.Utf8

/-! ## Writing -/

def octet (n : Nat) : UInt8 := UInt8.ofNat n

def encodeChar (c : Char) : List UInt8 :=
  let n := c.toNat
  if n < 0x80 then [octet n]
  else if n < 0x800 then [octet (0xC0 + n / 64), octet (0x80 + n % 64)]
  else if n < 0x10000 then
    [octet (0xE0 + n / 4096), octet (0x80 + n / 64 % 64), octet (0x80 + n % 64)]
  else
    [octet (0xF0 + n / 262144), octet (0x80 + n / 4096 % 64), octet (0x80 + n / 64 % 64),
      octet (0x80 + n % 64)]

def encode (s : String) : List UInt8 := s.toList.flatMap encodeChar

/-! ## Reading -/

/-- A character of which `seen` octets were read and `owed` are missing. The next octet must lie
between `low` and `high`. -/
structure Begun where
  seen : Nat
  owed : Nat
  low : Nat
  high : Nat
  value : Nat

inductive Start where
  | char (c : Char)
  | begun (b : Begun)
  | refused

def start (o : UInt8) : Start :=
  let n := o.toNat
  if n < 0x80 then .char (Char.ofNat n)
  else if n < 0xC2 then .refused
  else if n < 0xE0 then .begun ⟨1, 1, 0x80, 0xBF, n - 0xC0⟩
  else if n = 0xE0 then .begun ⟨1, 2, 0xA0, 0xBF, 0⟩
  else if n = 0xED then .begun ⟨1, 2, 0x80, 0x9F, 13⟩
  else if n < 0xF0 then .begun ⟨1, 2, 0x80, 0xBF, n - 0xE0⟩
  else if n = 0xF0 then .begun ⟨1, 3, 0x90, 0xBF, 0⟩
  else if n < 0xF4 then .begun ⟨1, 3, 0x80, 0xBF, n - 0xF0⟩
  else if n = 0xF4 then .begun ⟨1, 3, 0x80, 0x8F, 4⟩
  else .refused

def Begun.next (b : Begun) (o : UInt8) : Start :=
  let n := o.toNat
  if b.low ≤ n ∧ n ≤ b.high then
    let value := 64 * b.value + (n - 0x80)
    if b.owed = 1 then .char (Char.ofNat value)
    else .begun ⟨b.seen + 1, b.owed - 1, 0x80, 0xBF, value⟩
  else .refused

/-- Why octets are no text. Both name the place where the spoilt character starts. -/
inductive DecodeError where
  | invalid (length index : Nat)
  | incomplete (index : Nat)
  deriving DecidableEq, Repr

def DecodeError.message : DecodeError → String
  | .invalid length index => s!"invalid utf-8 sequence of {length} bytes from index {index}"
  | .incomplete index => s!"incomplete utf-8 byte sequence from index {index}"

def decodeFrom (index : Nat) : Option Begun → List UInt8 → Except DecodeError (List Char)
  | none, [] => .ok []
  | some b, [] => .error (.incomplete (index - b.seen))
  | none, o :: rest =>
    match start o with
    | .char c => (decodeFrom (index + 1) none rest).map (c :: ·)
    | .begun b => decodeFrom (index + 1) (some b) rest
    | .refused => .error (.invalid 1 index)
  | some b, o :: rest =>
    match b.next o with
    | .char c => (decodeFrom (index + 1) none rest).map (c :: ·)
    | .begun b => decodeFrom (index + 1) (some b) rest
    | .refused => .error (.invalid b.seen (index - b.seen))

/-- The text of octets that hold nothing else. -/
def decode (octets : List UInt8) : Except DecodeError String :=
  (decodeFrom 0 none octets).map String.ofList

/-! ## Reading whatever is there -/

def replacement : Char := '\uFFFD'

/-- An octet between characters, and what has to be replaced before it. -/
def restart (o : UInt8) (continueWith : Option Begun → List Char) : List Char :=
  match start o with
  | .char c => c :: continueWith none
  | .begun b => continueWith (some b)
  | .refused => replacement :: continueWith none

def repairFrom : Option Begun → List UInt8 → List Char
  | none, [] => []
  | some _, [] => [replacement]
  | none, o :: rest => restart o fun b => repairFrom b rest
  | some b, o :: rest =>
    match b.next o with
    | .char c => c :: repairFrom none rest
    | .begun b => repairFrom (some b) rest
    | .refused => replacement :: restart o fun b => repairFrom b rest

/-- The text of any octets. Each spoilt character is replaced by one sign. -/
def repair (octets : List UInt8) : String := String.ofList (repairFrom none octets)

end Lagmeter.Utf8
