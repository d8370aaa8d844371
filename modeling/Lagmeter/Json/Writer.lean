import Lagmeter.Json.Basic

/-!
# Writing JSON

A value is written either without any blank, or over several lines with two blanks for each level.
An empty list or object takes no lines of its own.
-/

namespace Lagmeter.Json

def quoted (raw : List Char) : List Char := '"' :: raw ++ ['"']

def boolText (b : Bool) : List Char := if b then "true".toList else "false".toList

/-! ## On one line -/

mutual

def compact : Json → List Char
  | .null => "null".toList
  | .bool b => boolText b
  | .number lexeme => lexeme
  | .text raw => quoted raw
  | .list items => '[' :: compactItems items ++ [']']
  | .object members => '\x7b' :: compactMembers members ++ ['\x7d']

def compactItems : List Json → List Char
  | [] => []
  | [j] => compact j
  | j :: k :: rest => compact j ++ ',' :: compactItems (k :: rest)

def compactMembers : List (List Char × Json) → List Char
  | [] => []
  | [(name, j)] => quoted name ++ ':' :: compact j
  | (name, j) :: m :: rest => quoted name ++ ':' :: compact j ++ ',' :: compactMembers (m :: rest)

end

/-! ## Over several lines -/

/-- A line break and the blanks of a level. -/
def newline (level : Nat) : List Char := '\n' :: List.replicate (2 * level) ' '

mutual

/-- The value with one item or member a line. -/
def pretty (level : Nat) : Json → List Char
  | .null => "null".toList
  | .bool b => boolText b
  | .number lexeme => lexeme
  | .text raw => quoted raw
  | .list [] => "[]".toList
  | .list (j :: rest) => '[' :: prettyItems (level + 1) (j :: rest) ++ newline level ++ [']']
  | .object [] => ['\x7b', '\x7d']
  | .object (m :: rest) => '\x7b' :: prettyMembers (level + 1) (m :: rest) ++ newline level ++ ['\x7d']

def prettyItems (level : Nat) : List Json → List Char
  | [] => []
  | [j] => newline level ++ pretty level j
  | j :: k :: rest => newline level ++ pretty level j ++ ',' :: prettyItems level (k :: rest)

def prettyMembers (level : Nat) : List (List Char × Json) → List Char
  | [] => []
  | [(name, j)] => newline level ++ quoted name ++ ':' :: ' ' :: pretty level j
  | (name, j) :: m :: rest =>
    newline level ++ quoted name ++ ':' :: ' ' :: pretty level j ++ ',' ::
      prettyMembers level (m :: rest)

end

def compactText (j : Json) : String := String.ofList j.compact

def prettyText (j : Json) : String := String.ofList (j.pretty 0)

end Lagmeter.Json
