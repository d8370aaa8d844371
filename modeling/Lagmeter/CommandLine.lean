import Lagmeter.Settings

/-!
# The command line

Options have a long name, and some a short one. A value follows its option, or stands in the same
argument. The value of an option is looked at only when the next option comes, so that an unknown
option is reported before a bad value in front of it.
-/

namespace Lagmeter

/-- What ends the reading of a command line. -/
inductive UsageError where
  | unknownArgument
  /-- A value is missing or none of the possible ones. -/
  | invalidValue
  /-- A value cannot be read. -/
  | valueValidation
  /-- An option is given twice. -/
  | argumentConflict
  /-- A switch has a value. -/
  | tooManyValues
  | displayHelp
  | displayVersion
  deriving DecidableEq, Repr

namespace UsageError

def name : UsageError → String
  | .unknownArgument => "UnknownArgument"
  | .invalidValue => "InvalidValue"
  | .valueValidation => "ValueValidation"
  | .argumentConflict => "ArgumentConflict"
  | .tooManyValues => "TooManyValues"
  | .displayHelp => "DisplayHelp"
  | .displayVersion => "DisplayVersion"

/-- Help and version are shown on request. All else is a mistake. -/
def exitCode : UsageError → Nat
  | .displayHelp | .displayVersion => 0
  | _ => 2

end UsageError

structure Arguments where
  settings : Settings := {}
  logFile : Option String := none
  verbose : Bool := false
  deriving Inhabited

namespace CommandLine

/-! ## Values -/

abbrev Reader (α : Type) := String → Except UsageError α

def whole : Reader Nat := fun s =>
  match readWhole? s.toList with
  | some n => if n < Nat.pow 2 64 then .ok n else .error .valueValidation
  | none => .error .valueValidation

/-- A port: a number with any sign that lies between 0 and 65535. -/
def port : Reader Nat := fun s =>
  let (digits, negative) := match s.toList with
    | '-' :: rest => (if rest.head? = some '+' then [] else rest, true)
    | cs => (cs, false)
  match readWhole? digits with
  | some n => if n ≤ 65535 ∧ (n = 0 ∨ !negative) then .ok n else .error .valueValidation
  | none => .error .valueValidation

def real : Reader Double := fun s =>
  match readNumeral? s.toList with
  | some x => .ok x
  | none => .error .valueValidation

def span : Reader Span := fun s =>
  match Span.read s with
  | .ok d => .ok d
  | .error _ => .error .valueValidation

def choice {α : Type} (ofOption? : String → Option α) : Reader α := fun s =>
  match ofOption? s with
  | some a => .ok a
  | none => .error .invalidValue

def text : Reader String := .ok

def path : Reader String := fun s => if s = "" then .error .invalidValue else .ok s

/-! ## Options -/

inductive Action where
  | help
  | version
  | switch (turn : Arguments → Arguments)
  | value (take : String → Arguments → Except UsageError Arguments)

structure Choice where
  long : String
  short : Option Char := none
  action : Action

/-- An option whose value is read and stored. -/
def stored {α : Type} (read : Reader α) (put : α → Arguments → Arguments) : Action :=
  .value fun s args => (read s).map fun a => put a args

/-- An option whose value is one of the settings. -/
def setting {α : Type} (read : Reader α) (put : α → Settings → Settings) : Action :=
  stored read fun a args => { args with settings := put a args.settings }

def choices : List Choice := [
  ⟨"nodes", some 'n', setting whole fun n s => { s with groupSize := n }⟩,
  ⟨"storage", some 't', setting (choice Structure.ofOption?) fun x s => { s with storage := x }⟩,
  ⟨"maps", none, setting whole fun n s => { s with plan := { s.plan with maps := n } }⟩,
  ⟨"readers-per-map", none,
    setting whole fun n s => { s with plan := { s.plan with readersPerMap := n } }⟩,
  ⟨"table-size", none, setting whole fun n s => { s with tableSize := n }⟩,
  ⟨"write-count", some 'w', setting whole fun n s => { s with writes := n }⟩,
  ⟨"warmup-count", none, setting whole fun n s => { s with warmup := n }⟩,
  ⟨"write-rate", some 'r', setting real fun x s => { s with rate := x }⟩,
  ⟨"interval", none, setting span fun d s => { s with interval := d }⟩,
  ⟨"read-timeout", none, setting span fun d s => { s with timeout := d }⟩,
  ⟨"end-on-repeat", none,
    .switch fun args => { args with settings := { args.settings with endOnRepeat := true } }⟩,
  ⟨"setup-mode", none, setting (choice SetupMode.ofOption?) fun m s => { s with setupMode := m }⟩,
  ⟨"propagation-delay", none, setting span fun d s => { s with delay := d }⟩,
  ⟨"map-name", none, setting text fun x s => { s with mapName := some x }⟩,
  ⟨"transport", none, setting (choice Connection.ofOption?) fun c s => { s with connection := c }⟩,
  ⟨"host", none, setting text fun x s => { s with host := x }⟩,
  ⟨"port", none, setting port fun n s => { s with port := n }⟩,
  ⟨"connect-timeout", none, setting span fun d s => { s with connectTimeout := d }⟩,
  ⟨"tag", none, setting text fun x s => { s with tag := some x }⟩,
  ⟨"log-dir", none, setting path fun x s => { s with logDirectory := x }⟩,
  ⟨"output-file", some 'o', setting path fun x s => { s with output := x }⟩,
  ⟨"log-file", none, stored path fun x args => { args with logFile := some x }⟩,
  ⟨"verbose", some 'v', .switch fun args => { args with verbose := true }⟩,
  ⟨"help", some 'h', .help⟩,
  ⟨"version", some 'V', .version⟩]

/-! ## Reading arguments -/

structure State where
  args : Arguments := {}
  /-- Options that were given. -/
  given : List String := []
  /-- The option that waits for its value or has just got it. -/
  waiting : Option (Choice × Option String) := none

/-- Carries out an option. One that was given before is refused. -/
def give (st : State) (c : Choice) (run : Arguments → Except UsageError Arguments) :
    Except UsageError State :=
  if c.long ∈ st.given then .error .argumentConflict
  else (run st.args).map fun args => { st with args, given := c.long :: st.given }

def settle (st : State) : Except UsageError State :=
  match st.waiting with
  | none => .ok st
  | some (_, none) => .error .invalidValue
  | some (c, some value) =>
    let st := { st with waiting := none }
    match c.action with
    | .value take => give st c (take value)
    | _ => .ok st

def switchOn (st : State) (c : Choice) : Except UsageError State := do
  let st ← settle st
  match c.action with
  | .help => throw .displayHelp
  | .version => throw .displayVersion
  | .switch turn => give st c fun args => .ok (turn args)
  | .value _ => return { st with waiting := some (c, none) }

/-- An option with its value in the same argument. -/
def attach (st : State) (c : Choice) (value : String) : Except UsageError State := do
  match c.action with
  | .value take => give (← settle st) c (take value)
  | _ => throw .tooManyValues

def readLong (st : State) (cs : List Char) : Except UsageError State :=
  let name := String.ofList (cs.takeWhile (· ≠ '='))
  match choices.find? (·.long = name) with
  | none => .error .unknownArgument
  | some c => match cs.dropWhile (· ≠ '=') with
    | [] => switchOn st c
    | _ :: value => attach st c (String.ofList value)

/-- The letters of an argument that starts with one hyphen. -/
def readShort (st : State) : List Char → Except UsageError State
  | [] => .ok st
  | letter :: rest =>
    match choices.find? (·.short = some letter) with
    | none => .error .unknownArgument
    | some c =>
      match c.action, rest with
      | .value _, [] => switchOn st c
      | .value _, '=' :: value => attach st c (String.ofList value)
      | .value _, value => attach st c (String.ofList value)
      | _, _ => do readShort (← switchOn st c) rest

def readArgument (st : State) (arg : String) : Except UsageError State :=
  match arg.toList, st.waiting with
  | '-' :: '-' :: cs, _ => readLong st cs
  | '-' :: c :: cs, _ => readShort st (c :: cs)
  | _, some (c, none) => .ok { st with waiting := some (c, some arg) }
  | _, _ => .error .unknownArgument

/-- All arguments. After a lone double hyphen nothing may follow. -/
def readFrom (st : State) : List String → Except UsageError Arguments
  | [] => (settle st).map State.args
  | "--" :: rest => if rest = [] then (settle st).map State.args else .error .unknownArgument
  | arg :: rest => do readFrom (← readArgument st arg) rest

def read (argv : List String) : Except UsageError Arguments := readFrom {} argv

end CommandLine

end Lagmeter
