import Lagmeter.Text.Utf8

/-!
# Files

A file system is a list of named places, each of which is a directory or a file of octets. A path
is a text. Its parts are the names between the strokes, and each of them but the last has to be a
directory.
-/

namespace Lagmeter

inductive FileError where
  | notFound
  | exists'
  | notDirectory
  | isDirectory
  | notText
  | refused (reason : String)
  deriving DecidableEq, Repr

def FileError.message : FileError → String
  | .notFound => "No such file or directory (os error 2)"
  | .exists' => "File exists (os error 17)"
  | .notDirectory => "Not a directory (os error 20)"
  | .isDirectory => "Is a directory (os error 21)"
  | .notText => "stream did not contain valid UTF-8"
  | .refused reason => reason

/-! ## Paths -/

namespace Path

/-- The path with another one appended. One that starts with a stroke replaces it. -/
def join (p q : String) : String :=
  if q.toList.head? = some '/' then q
  else if p = "" ∨ p.toList.getLast? = some '/' then p ++ q
  else p ++ "/" ++ q

/-- The pieces between the strokes of a text. -/
def pieces : List Char → List (List Char)
  | [] => [[]]
  | c :: cs =>
    if c = '/' then [] :: pieces cs
    else match pieces cs with
      | [] => [[c]]
      | piece :: rest => (c :: piece) :: rest

/-- The names of a path. A stroke at the end gives an empty last name. -/
def parts (p : String) : List String := (pieces p.toList).map String.ofList

/-- The names that count: neither empty nor a point. -/
def leading (names : List String) : List String := names.filter fun s => s ≠ "" ∧ s ≠ "."

def names (p : String) : List String := leading (parts p)

/-- The place that one more name of a path leads to. -/
def step (place : List String) (name : String) : List String :=
  if name = "" ∨ name = "." then place else if name = ".." then place.dropLast else place ++ [name]

def fileName? (p : String) : Option String :=
  match (names p).getLast? with
  | some ".." => none
  | name => name

def dropStrokes (cs : List Char) : List Char := (cs.reverse.dropWhile (· = '/')).reverse

def parent? (p : String) : Option String :=
  let cs := dropStrokes p.toList
  if cs = [] then none
  else
    let before := (cs.reverse.dropWhile (· ≠ '/')).reverse
    let trimmed := dropStrokes before
    some (String.ofList (if trimmed = [] then before.take 1 else trimmed))

end Path

inductive Entry where
  | directory
  | file (content : List UInt8)
  deriving DecidableEq

/-- A file system. The place without names is a directory that is always there. -/
structure Files where
  entries : List (List String × Entry)
  deriving DecidableEq, Inhabited

namespace Files

def empty : Files := ⟨[]⟩

/-! ## Places -/

def node? (fs : Files) (place : List String) : Option Entry :=
  if place = [] then some .directory else fs.entries.lookup place

def set (fs : Files) (place : List String) (e : Entry) : Files :=
  if (fs.entries.lookup place).isSome then
    ⟨fs.entries.map fun (p, old) => if p = place then (p, e) else (p, old)⟩
  else ⟨fs.entries ++ [(place, e)]⟩

/-- The place that names lead to. Every name but the last has to lead to a directory. -/
def locate (fs : Files) (place : List String) : List String → Except FileError (List String)
  | [] => .ok place
  | name :: rest =>
    let next := Path.step place name
    if rest = [] then .ok next
    else match fs.node? next with
      | none => .error .notFound
      | some (.file _) => .error .notDirectory
      | some .directory => locate fs next rest

def place (fs : Files) (path : String) : Except FileError (List String) :=
  fs.locate [] (Path.parts path)

/-- What a path leads to, if there is anything. -/
def at? (fs : Files) (path : String) : Option Entry :=
  match fs.place path with
  | .ok p => fs.node? p
  | .error _ => none

def isFile (fs : Files) (path : String) : Bool :=
  match fs.at? path with
  | some (.file _) => true
  | _ => false

def isThere (fs : Files) (path : String) : Bool := (fs.at? path).isSome

/-! ## Operations -/

/-- Creates the directories that are missing on the way along names. -/
def makeDirectories (fs : Files) (place : List String) : List String → Except FileError Files
  | [] => .ok fs
  | name :: rest =>
    let next := Path.step place name
    match fs.node? next with
    | some .directory => makeDirectories fs next rest
    | some (.file _) => .error (if rest = [] then .exists' else .notDirectory)
    | none => makeDirectories (fs.set next .directory) next rest

def createDirectories (fs : Files) (path : String) : Except FileError Files :=
  fs.makeDirectories [] (Path.parts path)

/-- The content of the file that is opened for writing. A file that is missing is empty. A path with
a stroke at its end can only mean a directory. -/
def opened (fs : Files) (path : String) : Except FileError (List String × List UInt8) := do
  let p ← fs.place (String.ofList (Path.dropStrokes path.toList))
  if path.toList.getLast? = some '/' then throw .isDirectory
  match fs.node? p with
  | some .directory => throw .isDirectory
  | some (.file content) => return (p, content)
  | none => return (p, [])

def append (fs : Files) (path : String) (octets : List UInt8) : Except FileError Files := do
  let (p, content) ← fs.opened path
  return fs.set p (.file (content ++ octets))

def write (fs : Files) (path : String) (octets : List UInt8) : Except FileError Files := do
  let (p, _) ← fs.opened path
  return fs.set p (.file octets)

def read (fs : Files) (path : String) : Except FileError (List UInt8) := do
  let p ← fs.place path
  match fs.node? p with
  | some .directory => throw .isDirectory
  | some (.file content) => return content
  | none => throw .notFound

def readText (fs : Files) (path : String) : Except FileError String := do
  match Utf8.decode (← fs.read path) with
  | .ok s => return s
  | .error _ => throw .notText

def list (fs : Files) (path : String) : Except FileError (List String) := do
  let p ← fs.place path
  match fs.node? p with
  | none => throw .notFound
  | some (.file _) => throw .notDirectory
  | some .directory =>
    return fs.entries.filterMap fun (q, _) =>
      if q.dropLast = p then q.getLast? else none

/-- All files below a directory, with their path from there, in the order of the paths. -/
def below (fs : Files) (place : List String) : List (String × List UInt8) :=
  let found := fs.entries.filterMap fun (p, e) =>
    match e with
    | .file content =>
      if place.isPrefixOf p ∧ place ≠ p then
        some ("/".intercalate (p.drop place.length), content)
      else none
    | .directory => none
  found.mergeSort fun a b => a.1 ≤ b.1

end Files

end Lagmeter
