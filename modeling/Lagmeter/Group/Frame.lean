import Lagmeter.Json.Record

/-!
# Frames

A frame is what one rank sends to another in a collective operation: the operation, its number in
the sequence of operations, and the data.
-/

namespace Lagmeter

inductive Operation where
  | hello
  | barrier
  | broadcast
  | gather
  | allGather
  | reduceMin
  | reduceMax
  | reduceSum
  deriving DecidableEq, Repr, Inhabited

namespace Operation

/-- The operations in the order of their codes. -/
def all : List Operation :=
  [.hello, .barrier, .broadcast, .gather, .allGather, .reduceMin, .reduceMax, .reduceSum]

def name : Operation → String
  | .hello => "Hello"
  | .barrier => "Barrier"
  | .broadcast => "Broadcast"
  | .gather => "Gather"
  | .allGather => "AllGather"
  | .reduceMin => "ReduceMin"
  | .reduceMax => "ReduceMax"
  | .reduceSum => "ReduceSum"

def toJson (o : Operation) : Json := .ofText o.name

def ofJson? (j : Json) : Option Operation := j.choice? (all.map fun o => (o.name, o))

end Operation

/-- The data of a frame. `failure` says that the operation could not be completed, and why. -/
inductive Payload where
  | empty
  | words (values : List Int64)
  | reals (values : List Double)
  | failure (reason : String)
  deriving DecidableEq, Inhabited

namespace Payload

def kind : Payload → String
  | .empty => "empty"
  | .words _ => "words"
  | .reals _ => "reals"
  | .failure _ => "failure"

def toJson : Payload → Json
  | .empty => .ofText "Empty"
  | .words values => .tagged "Words" (.ofList (fun v => .ofInt v.toInt) values)
  | .reals values => .tagged "Reals" (.ofList .ofDouble values)
  | .failure reason => .tagged "Failure" (.ofText reason)

def ofJson? (j : Json) : Option Payload := do
  match ← j.variant? with
  | ("Empty", content) => if Json.isUnit content then some .empty else none
  | ("Words", some content) =>
    (content.items? fun j => j.integer?.map Int64.ofInt).map .words
  | ("Reals", some content) => (content.items? Json.double?).map .reals
  | ("Failure", some content) => content.text?.map .failure
  | _ => none

end Payload

structure Frame where
  operation : Operation
  sequence : Nat
  payload : Payload
  deriving DecidableEq, Inhabited

namespace Frame

/-- The step that a frame belongs to, for messages. -/
def stepText (operation : Operation) (sequence : Nat) : String := s!"{operation.name} #{sequence}"

def toJson (f : Frame) : Json :=
  .record [("op", f.operation.toJson), ("sequence", .ofNat f.sequence),
    ("payload", f.payload.toJson)]

def ofJson? (j : Json) : Option Frame := do
  match ← j.fields? ["op", "sequence", "payload"] with
  | [operation, sequence, payload] =>
    return ⟨← Json.required? Operation.ofJson? operation, ← Json.required? Json.word? sequence,
      ← Json.required? Payload.ofJson? payload⟩
  | _ => none

end Frame

end Lagmeter
