import Lagmeter.Report.Aggregate
import Lagmeter.Roles

/-!
# Deliveries

How the versions of each map reached its readers, from the times that every rank recorded. A rank
has one place for each version, and zero there means that it did not write or see it.
-/

namespace Lagmeter.Delivery

/-- The time that a rank recorded for a version. -/
def timeAt (row : List Int64) (version : Nat) : Int64 := row.getD version 0

def writtenOf (slots : Nat) (sent : List Int64) : List Nat :=
  (List.range (min slots sent.length)).filter fun v => timeAt sent v ≠ 0

/-- When the readers that saw a version saw it. -/
def seen (readers : List (List Int64)) (version : Nat) : List Int64 :=
  (readers.map fun row => timeAt row version).filter (· ≠ 0)

/-- How often each number occurs, by increasing number. -/
def tally (limit : Nat) (numbers : List Nat) : List (Nat × Nat) :=
  (List.range (limit + 1)).filterMap fun k =>
    if numbers.count k = 0 then none else some (k, numbers.count k)

def latest? : List Int64 → Option Int
  | [] => none
  | t :: ts => some (ts.foldl (fun m t => max m t.toInt) t.toInt)

/-- The time from the write of a version until the last of all readers saw it. -/
def fullTime? (sent : List Int64) (readers : List (List Int64)) (version : Nat) : Option Nat :=
  let times := seen readers version
  if times.length ≠ readers.length then none
  else match latest? times with
    | none => none
    | some last =>
      let start := (timeAt sent version).toInt
      if start ≤ last then some (last - start).toNat else none

/-- The delivery of the versions of one writer. -/
def ofTimes (map slots : Nat) (sent : List Int64) (readers : List (List Int64)) : Delivery :=
  let versions := writtenOf slots sent
  { map
    readers := readers.length
    written := versions.length
    histogram := tally readers.length (versions.map fun v => (seen readers v).length)
    full := (Samples.ofList (versions.filterMap (fullTime? sent readers))).toOption.map
      Samples.summary }

/-- The rows of the ranks with a role. -/
def rowsOf (ranks : List (Role × List Int64)) (role : Role) : List (List Int64) :=
  (ranks.filter (·.1 = role)).map Prod.snd

/-- One delivery for each writer, in the order of the ranks. A rank without a row is left out. -/
def ofRanks (slots : Nat) (ranks : List (Role × List Int64)) : List Delivery :=
  ranks.filterMap fun (role, sent) => match role with
    | .writer map => some (ofTimes map slots sent (rowsOf ranks (.reader map)))
    | _ => none

end Lagmeter.Delivery
