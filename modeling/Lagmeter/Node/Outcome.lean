import Lagmeter.Roles

/-!
# Outcomes

What a node has measured when its run is over.
-/

namespace Lagmeter

structure Outcome where
  role : Role := .idle
  /-- Latencies in nanoseconds. Only readers have them. -/
  latencies : List Nat := []
  /-- One place for each measured version: the time of its write or of its first sight, or zero. -/
  times : List Nat := []
  start : Option Nat := none
  finish : Option Nat := none
  invalid : Nat := 0
  missed : Nat := 0
  failures : Nat := 0
  deriving DecidableEq, Repr, Inhabited

end Lagmeter
