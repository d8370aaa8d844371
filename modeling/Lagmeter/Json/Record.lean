import Lagmeter.Json.Numeral
import Lagmeter.Json.Reader

/-!
# Records and variants in JSON

A record is written as an object and read from an object, whose unknown members are ignored, or
from the list of its fields. A variant is written as its name, or as an object with one member.
-/

namespace Lagmeter.Json

/-! ## Records -/

def record (fields : List (String × Json)) : Json :=
  .object (fields.map fun (name, j) => (escape name.toList, j))

/-- The members of an object by their names, if all names can be read. -/
def named? (members : List (List Char × Json)) : Option (List (String × Json)) :=
  members.mapM fun (raw, j) => (unescape? raw).map fun cs => (String.ofList cs, j)

/-- The value of a name, which may be missing but must not occur twice. -/
def valueOf? (named : List (String × Json)) (name : String) : Option (Option Json) :=
  match (named.filter fun m => m.1 = name).map Prod.snd with
  | [] => some none
  | [j] => some (some j)
  | _ => none

/-- The value of each name, in order: nothing where an object has no such member. A name that
cannot be read, and a known name that occurs twice, spoil the record. -/
def fields? (names : List String) : Json → Option (List (Option Json))
  | .object members => (named? members).bind fun named => names.mapM (valueOf? named)
  | .list items => if items.length = names.length then some (items.map some) else none
  | _ => none

def required? {α : Type} (read? : Json → Option α) (field : Option Json) : Option α :=
  field.bind read?

/-- A field that may be missing or `null`. -/
def absent? {α : Type} (read? : Json → Option α) : Option Json → Option (Option α)
  | none => some none
  | some j => optional? read? j

/-! ## Variants -/

/-- The name of a variant and what it holds, if it is written with content. -/
def variant? : Json → Option (String × Option Json)
  | .text raw => (unescape? raw).map fun cs => (String.ofList cs, none)
  | .object [(raw, j)] => (unescape? raw).map fun cs => (String.ofList cs, some j)
  | _ => none

/-- The content of a variant that holds nothing. -/
def isUnit : Option Json → Bool
  | none => true
  | some .null => true
  | _ => false

def choice? {α : Type} (choices : List (String × α)) (j : Json) : Option α := do
  let (name, content) ← j.variant?
  if isUnit content then choices.lookup name else none

def tagged (name : String) (content : Json) : Json := record [(name, content)]

/-! ## Maps from numbers -/

/-- A name that is spelled as a word of 64 bits. -/
def nameWord? (raw : List Char) : Option Nat :=
  if wholeRun? raw = some (raw, []) then (Json.number raw).word? else none

/-- Entries with one more, which takes the place of an earlier one with the same number. -/
def replaced {α : Type} (kept : List (Nat × α)) (entry : Nat × α) : List (Nat × α) :=
  kept.filter (·.1 ≠ entry.1) ++ [entry]

/-- Entries by increasing number. Of two entries with one number the later stays. -/
def byNumber {α : Type} (entries : List (Nat × α)) : List (Nat × α) :=
  (entries.foldl replaced []).mergeSort fun a b => a.1 ≤ b.1

/-- A member whose name is a number. -/
def pair? {α : Type} (read? : Json → Option α) (member : List Char × Json) : Option (Nat × α) := do
  return (← nameWord? member.1, ← read? member.2)

def numbered? {α : Type} (read? : Json → Option α) : Json → Option (List (Nat × α))
  | .object members => (members.mapM (pair? read?)).map byNumber
  | _ => none

def ofNumbered {α : Type} (write : α → Json) (entries : List (Nat × α)) : Json :=
  .object (entries.map fun (k, a) => ((toString k).toList, write a))

end Lagmeter.Json
