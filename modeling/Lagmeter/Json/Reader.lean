import Lagmeter.Json.Basic
import Lagmeter.Number.Numeral

/-!
# Reading JSON

The reader accepts exactly the grammar of JSON: no blanks but four, no leading zeros, no control
characters between quotes. The depth of a value is bounded by the length of its text, which is the
fuel.
-/

namespace Lagmeter.Json

def isSpace (c : Char) : Bool := c = ' ' || c = '\n' || c = '\t' || c = '\r'

def skipSpace (cs : List Char) : List Char := cs.dropWhile isSpace

/-! ## Texts -/

/-- What stands before the closing quote, and what follows it. Escapes are checked for their form
and kept. -/
def textRun? : List Char → Option (List Char × List Char)
  | [] => none
  | '"' :: rest => some ([], rest)
  | '\\' :: 'u' :: a :: b :: c :: d :: rest =>
    if (unit? a b c d).isSome then
      (textRun? rest).map fun (raw, rest) => ('\\' :: 'u' :: a :: b :: c :: d :: raw, rest)
    else none
  | '\\' :: c :: rest =>
    if (letterEscape? c).isSome then
      (textRun? rest).map fun (raw, rest) => ('\\' :: c :: raw, rest)
    else none
  | c :: rest =>
    if c = '\\' ∨ c.toNat < 32 then none
    else (textRun? rest).map fun (raw, rest) => (c :: raw, rest)

/-! ## Numbers -/

/-- The digits before the point: a zero alone, or digits that start with another one. -/
def wholeRun? (cs : List Char) : Option (List Char × List Char) :=
  match cs with
  | '0' :: rest => some (['0'], rest)
  | _ => match digitRun cs with
    | ([], _) => none
    | run => some run

/-- The point and the digits after it, if there is a point. -/
def pointRun? : List Char → Option (List Char × List Char)
  | '.' :: rest => match digitRun rest with
    | ([], _) => none
    | (ds, rest) => some ('.' :: ds, rest)
  | rest => some ([], rest)

/-- The letter, sign and digits of a power of ten, if there is one. -/
def powerRun? : List Char → Option (List Char × List Char)
  | [] => some ([], [])
  | e :: rest =>
    if e = 'e' ∨ e = 'E' then
      let (sign, rest) := match rest with
        | '+' :: rest => (['+'], rest)
        | '-' :: rest => (['-'], rest)
        | _ => ([], rest)
      match digitRun rest with
      | ([], _) => none
      | (ds, rest) => some (e :: sign ++ ds, rest)
    else some ([], e :: rest)

def minus (negative : Bool) : List Char := if negative then ['-'] else []

/-- The number at the start of a text, as written, and what follows it. -/
def numberRun? (cs : List Char) : Option (List Char × List Char) := do
  let (negative, rest) := minusRun cs
  let (whole, rest) ← wholeRun? rest
  let (part, rest) ← pointRun? rest
  let (power, rest) ← powerRun? rest
  return (minus negative ++ whole ++ part ++ power, rest)

/-! ## Values -/

mutual

/-- The value at the start of a text, and what follows it. -/
def value? : Nat → List Char → Option (Json × List Char)
  | 0, _ => none
  | fuel + 1, cs =>
    match skipSpace cs with
    | 'n' :: 'u' :: 'l' :: 'l' :: rest => some (.null, rest)
    | 't' :: 'r' :: 'u' :: 'e' :: rest => some (.bool true, rest)
    | 'f' :: 'a' :: 'l' :: 's' :: 'e' :: rest => some (.bool false, rest)
    | '"' :: rest => (textRun? rest).map fun (raw, rest) => (.text raw, rest)
    | '[' :: rest =>
      match skipSpace rest with
      | ']' :: rest => some (.list [], rest)
      | rest => (itemRun? fuel rest).map fun (items, rest) => (.list items, rest)
    | '\x7b' :: rest =>
      match skipSpace rest with
      | '\x7d' :: rest => some (.object [], rest)
      | rest => (memberRun? fuel rest).map fun (members, rest) => (.object members, rest)
    | rest => (numberRun? rest).map fun (lexeme, rest) => (.number lexeme, rest)

def itemRun? : Nat → List Char → Option (List Json × List Char)
  | 0, _ => none
  | fuel + 1, cs =>
    match value? fuel cs with
    | none => none
    | some (j, rest) =>
      match skipSpace rest with
      | ',' :: rest => (itemRun? fuel rest).map fun (items, rest) => (j :: items, rest)
      | ']' :: rest => some ([j], rest)
      | _ => none

def memberRun? : Nat → List Char → Option (List (List Char × Json) × List Char)
  | 0, _ => none
  | fuel + 1, cs =>
    match skipSpace cs with
    | '"' :: rest =>
      match textRun? rest with
      | none => none
      | some (name, rest) =>
        match skipSpace rest with
        | ':' :: rest =>
          match value? fuel rest with
          | none => none
          | some (j, rest) =>
            match skipSpace rest with
            | ',' :: rest =>
              (memberRun? fuel rest).map fun (members, rest) => ((name, j) :: members, rest)
            | '\x7d' :: rest => some ([(name, j)], rest)
            | _ => none
        | _ => none
    | _ => none

end

/-- The one value of a text, with blanks around it. -/
def read? (text : String) : Option Json :=
  let cs := text.toList
  match value? (cs.length + 1) cs with
  | some (j, rest) => if skipSpace rest = [] then some j else none
  | none => none

end Lagmeter.Json
