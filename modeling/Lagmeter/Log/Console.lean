import Lagmeter.Log.Event
import Lagmeter.Text.Quoted

/-!
# The console

An event is printed with the fields of the spans around it, each in brackets, and coloured by its
level. Signs that a terminal would obey are spelled out in texts.
-/

namespace Lagmeter.Console

/-! ## Fields -/

inductive Value where
  | number (n : Int)
  | text (s : String)

def Value.display : Value → String
  | .number n => toString n
  | .text s => Quoted.encode s

/-- A span: the fields of everything that is told within it. A filter may stop the span and not
what is told. -/
structure Span where
  level : Level := .info
  fields : List (String × Value)

def fieldsText (fields : List (String × Value)) : String :=
  " ".intercalate (fields.map fun (name, value) => name ++ "=" ++ value.display)

def rankSpan (level : Level) (rank : Nat) : Span := ⟨level, [("rank", .number rank)]⟩

/-! ## Texts -/

/-- A sign that a terminal would obey, spelled out. -/
def plainChar (c : Char) : List Char :=
  if c = '\x1b' then ['\\', 'x', '1', 'b']
  else if c = '\x07' then ['\\', 'x', '0', '7']
  else if c = '\x08' then ['\\', 'x', '0', '8']
  else if c = '\x0c' then ['\\', 'x', '0', 'c']
  else if c = '\x7f' then ['\\', 'x', '7', 'f']
  else if 0x80 ≤ c.toNat ∧ c.toNat ≤ 0x9f then
    '\\' :: 'u' :: '\x7b' :: Quoted.hexText c.toNat ++ ['\x7d']
  else [c]

def plainText (s : String) : String := String.ofList (s.toList.flatMap plainChar)

/-! ## Lines -/

def color : Level → String
  | .error => "31"
  | .warn => "33"
  | .info => "37"
  | .debug => "34"
  | .trace => "35"

/-- The text between the escapes that switch a colour on and off. -/
def coloured (level : Level) (text : String) : String :=
  "\x1b[" ++ color level ++ "m" ++ text ++ "\x1b[0m"

/-- What is printed for an event. Spans without fields show nothing. -/
def line (spans : List Span) (fields : List (String × Value)) (event : Event) : String :=
  String.join (spans.map fun s => if s.fields.isEmpty then "" else "[" ++ fieldsText s.fields ++ "] ") ++
    " ".intercalate (plainText event.text :: fields.map fun f => fieldsText [f])

def lines (text : String) : List String :=
  (text.splitOn "\n").map fun s =>
    match s.toList.reverse with
    | '\r' :: rest => String.ofList rest.reverse
    | _ => s

/-- What the console shows of an event: nothing if the filter stops it, and no span that the filter
stops. -/
def shown (filter : Option Level) (colours : Bool) (spans : List Span)
    (fields : List (String × Value)) (event : Event) : List String :=
  match filter with
  | none => []
  | some filter =>
    if event.level.passes filter then
      let text := line (spans.filter (·.level.passes filter)) fields event
      lines (if colours then coloured event.level text else text)
    else []

end Lagmeter.Console
