/-!
# Events

What a program has to tell, and how much it matters.
-/

namespace Lagmeter

/-- How much an event matters, from most to least. -/
inductive Level where
  | error
  | warn
  | info
  | debug
  | trace
  deriving DecidableEq, Repr, Inhabited

namespace Level

def all : List Level := [.error, .warn, .info, .debug, .trace]

def name : Level → String
  | .error => "error"
  | .warn => "warn"
  | .info => "info"
  | .debug => "debug"
  | .trace => "trace"

def ofName? (name : String) : Option Level := all.find? (·.name = name)

def place : Level → Nat
  | .error => 0
  | .warn => 1
  | .info => 2
  | .debug => 3
  | .trace => 4

/-- Whether events of this level pass a filter. -/
def passes (level filter : Level) : Bool := level.place ≤ filter.place

end Level

structure Event where
  level : Level
  text : String
  deriving DecidableEq, Repr, Inhabited

end Lagmeter
