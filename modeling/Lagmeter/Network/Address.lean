import Lagmeter.Json.Record

/-!
# Addresses, entries and routes

The values that the replicated structures hold.
-/

namespace Lagmeter

/-! ## Hardware addresses -/

structure Mac where
  raw : Nat
  deriving DecidableEq, Repr, Inhabited

namespace Mac

def zero : Mac := ⟨0⟩

/-- The address in the low 48 bits of a word. -/
def ofWord (word : Nat) : Mac := ⟨word % Nat.pow 2 48⟩

def octetText (n : Nat) : String := String.ofList [Json.hexDigit (n / 16 % 16), Json.hexDigit (n % 16)]

def text (m : Mac) : String :=
  ":".intercalate ([40, 32, 24, 16, 8, 0].map fun shift => octetText (m.raw / Nat.pow 2 shift % 256))

def toJson (m : Mac) : Json := .ofNat m.raw

def ofJson? (j : Json) : Option Mac := j.word?.map Mac.mk

end Mac

/-! ## Internet addresses -/

structure Address where
  value : Nat
  deriving DecidableEq, Repr, Inhabited

namespace Address

def unspecified : Address := ⟨0⟩

def ofOctets (a b c d : Nat) : Address := ⟨((a * 256 + b) * 256 + c) * 256 + d⟩

def octets (a : Address) : List Nat :=
  [a.value / Nat.pow 2 24 % 256, a.value / Nat.pow 2 16 % 256, a.value / Nat.pow 2 8 % 256, a.value % 256]

/-- The address of a key: its low 32 bits. -/
def ofKey (key : Int) : Address := ⟨(key % 0x100000000).toNat⟩

def text (a : Address) : String := ".".intercalate (a.octets.map toString)

/-- A number below 256 of at most three digits and without a leading zero. -/
def octet? (cs : List Char) : Option Nat :=
  if cs = [] ∨ !cs.all Char.isDigit ∨ 3 < cs.length ∨ (cs.head? = some '0' ∧ 1 < cs.length) then none
  else if digitsValue cs < 256 then some (digitsValue cs)
  else none

def parts : List Char → List (List Char)
  | [] => [[]]
  | c :: rest =>
    if c = '.' then [] :: parts rest
    else match parts rest with
      | [] => [[c]]
      | p :: ps => (c :: p) :: ps

def read? (s : String) : Option Address :=
  match parts s.toList with
  | [a, b, c, d] => do return ofOctets (← octet? a) (← octet? b) (← octet? c) (← octet? d)
  | _ => none

def toJson (a : Address) : Json := .ofText a.text

def ofJson? (j : Json) : Option Address := j.text?.bind read?

end Address

/-! ## Entries of an address table -/

/-- What an address resolves to, with three words for times or counters. -/
structure ArpEntry where
  mac : Mac
  expiry : Nat
  stale : Nat
  lastArp : Nat
  deriving DecidableEq, Repr, Inhabited

namespace ArpEntry

def names : List String := ["mac", "expiry", "stale", "last_arp"]

def toJson (e : ArpEntry) : Json :=
  .record [("mac", e.mac.toJson), ("expiry", .ofNat e.expiry), ("stale", .ofNat e.stale),
    ("last_arp", .ofNat e.lastArp)]

def ofJson? (j : Json) : Option ArpEntry := do
  match ← j.fields? names with
  | [mac, expiry, stale, lastArp] =>
    return ⟨← Json.required? Mac.ofJson? mac, ← Json.required? Json.word? expiry,
      ← Json.required? Json.word? stale, ← Json.required? Json.word? lastArp⟩
  | _ => none

end ArpEntry

/-! ## Routes -/

structure Route where
  destination : Address
  width : Nat
  gateway : Address
  metric : Nat
  installed : Nat
  deriving DecidableEq, Repr, Inhabited

namespace Route

def isDefault (r : Route) : Bool := r.width = 0 ∧ r.destination = Address.unspecified

def names : List String := ["destination", "prefix_len", "gateway", "metric", "installed_at_ns"]

def toJson (r : Route) : Json :=
  .record [("destination", r.destination.toJson), ("prefix_len", .ofNat r.width),
    ("gateway", r.gateway.toJson), ("metric", .ofNat r.metric),
    ("installed_at_ns", .ofNat r.installed)]

def ofJson? (j : Json) : Option Route := do
  match ← j.fields? names with
  | [destination, width, gateway, metric, installed] =>
    return ⟨← Json.required? Address.ofJson? destination, ← Json.required? (Json.natUpTo? 255) width,
      ← Json.required? Address.ofJson? gateway, ← Json.required? Json.word? metric,
      ← Json.required? Json.word? installed⟩
  | _ => none

end Route

end Lagmeter
