/-!
# Faults

A fault is a failure with the reasons that led to it, the outermost first.
-/

namespace Lagmeter

structure Fault where
  reasons : List String
  deriving DecidableEq, Repr, Inhabited

namespace Fault

def ofReason (reason : String) : Fault := ⟨[reason]⟩

/-- The fault as the reason of another one. -/
def within (context : String) (f : Fault) : Fault := ⟨context :: f.reasons⟩

def message (f : Fault) : String := ": ".intercalate f.reasons

end Fault

end Lagmeter
