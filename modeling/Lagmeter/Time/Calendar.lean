import Lagmeter.Number.Layout
import Lagmeter.Number.Numeral
import Lagmeter.Text.Blank

/-!
# Dates and times of day

A moment is a count of seconds from the start of 1970, with a part of a second. It is written as
a date and a time of day in universal time, and read from such a text with any offset.
-/

namespace Lagmeter

/-! ## Dates -/

/-- A day of the calendar that is extended without end in both directions. -/
structure Date where
  year : Int
  month : Nat
  day : Nat
  deriving DecidableEq, Repr

namespace Date

def isLeap (year : Int) : Bool := year % 4 = 0 ∧ (year % 100 ≠ 0 ∨ year % 400 = 0)

def daysIn (year : Int) (month : Nat) : Nat :=
  if month = 2 then if isLeap year then 29 else 28
  else if month = 4 ∨ month = 6 ∨ month = 9 ∨ month = 11 then 30
  else 31

/-- The days of a cycle of 400 years before a year of it. The years are taken to start in March, so
that the leap day is the last day of its year. -/
def daysBefore (year : Int) : Int := year * 365 + year / 4 - year / 100

/-- Days from the start of 1970. -/
def toDays (d : Date) : Int :=
  let year := if d.month ≤ 2 then d.year - 1 else d.year
  let month : Int := if d.month ≤ 2 then d.month + 9 else d.month - 3
  let cycle := year / 400
  let ofYear := (153 * month + 2) / 5 + d.day - 1
  cycle * 146097 + daysBefore (year - cycle * 400) + ofYear - 719468

/-- The year of a cycle in which its day `ofCycle` lies. -/
def yearOfCycle (ofCycle : Int) : Int :=
  (ofCycle - ofCycle / 1460 + ofCycle / 36524 - ofCycle / 146096) / 365

/-- The day `ofYear` of a year that starts in March. -/
def ofMarch (year ofYear : Int) : Date :=
  let march := (5 * ofYear + 2) / 153
  let day := ofYear - (153 * march + 2) / 5 + 1
  let month := if march < 10 then march + 3 else march - 9
  ⟨year + (if month ≤ 2 then 1 else 0), month.toNat, day.toNat⟩

def ofDays (days : Int) : Date :=
  let shifted := days + 719468
  let cycle := shifted / 146097
  let ofCycle := shifted - cycle * 146097
  let year := yearOfCycle ofCycle
  ofMarch (year + cycle * 400) (ofCycle - daysBefore year)

def yearInRange (year : Int) : Bool := -262143 ≤ year ∧ year ≤ 262142

def isValid (d : Date) : Bool :=
  yearInRange d.year ∧ 1 ≤ d.month ∧ d.month ≤ 12 ∧ 1 ≤ d.day ∧ d.day ≤ daysIn d.year d.month

end Date

/-! ## Moments -/

/-- Seconds from the start of 1970, and nanoseconds. A leap second is the second before it with a
part from 1 on. -/
structure Moment where
  seconds : Int
  nanos : Nat
  deriving DecidableEq, Repr, Inhabited

namespace Moment

def ofNanos (n : Nat) : Moment := ⟨n / 1000000000, n % 1000000000⟩

def date (m : Moment) : Date := Date.ofDays (m.seconds / 86400)

def ofDay (m : Moment) : Nat := (m.seconds % 86400).toNat

def padded (width n : Nat) : String :=
  let digits := toString n
  zeros (width - digits.length) ++ digits

/-- A year of four digits, or a sign and at least four digits. -/
def yearText (year : Int) : String :=
  if 0 ≤ year ∧ year ≤ 9999 then padded 4 year.toNat
  else (if year < 0 then "-" else "+") ++ padded 4 year.natAbs

def dateText (m : Moment) : String :=
  let d := m.date
  s!"{yearText d.year}-{padded 2 d.month}-{padded 2 d.day}"

def timeText (m : Moment) : String :=
  let s := m.ofDay
  let second := s % 60 + m.nanos / 1000000000
  s!"{padded 2 (s / 3600)}:{padded 2 (s / 60 % 60)}:{padded 2 second}"

/-- Date and time with three places, for log headers. -/
def header (m : Moment) : String :=
  s!"{m.dateText} {m.timeText}.{padded 3 (m.nanos % 1000000000 / 1000000)}"

/-- The places of a second that are needed: none, three, six or nine. -/
def partText (nanos : Nat) : String :=
  if nanos = 0 then ""
  else if nanos % 1000000 = 0 then "." ++ padded 3 (nanos / 1000000)
  else if nanos % 1000 = 0 then "." ++ padded 6 (nanos / 1000)
  else "." ++ padded 9 nanos

def stamp (m : Moment) : String := s!"{m.dateText}T{m.timeText}{partText (m.nanos % 1000000000)}Z"

/-! ## Reading -/

def skipBlanks (cs : List Char) : List Char := cs.dropWhile isBlank

/-- A number of one to `width` digits after blanks. -/
def field? (width : Nat) (cs : List Char) : Option (Nat × List Char) :=
  let cs := skipBlanks cs
  let ds := (cs.take width).takeWhile Char.isDigit
  if ds = [] then none else some (digitsValue ds, cs.drop ds.length)

/-- A year: up to four digits, or any number of them after a sign. -/
def year? (cs : List Char) : Option (Int × List Char) :=
  match skipBlanks cs with
  | '-' :: rest => match digitRun rest with
    | ([], _) => none
    | (ds, rest) => some (-(digitsValue ds : Int), rest)
  | '+' :: rest => match digitRun rest with
    | ([], _) => none
    | (ds, rest) => some ((digitsValue ds : Int), rest)
  | rest => (field? 4 rest).map fun (n, rest) => ((n : Int), rest)

/-- A sign after blanks, such as the one between the parts of a date. -/
def mark? (c : Char) (cs : List Char) : Option (List Char) :=
  match skipBlanks cs with
  | d :: rest => if d = c then some rest else none
  | [] => none

/-- The part of a second after the point. Digits after the ninth are dropped. -/
def part? : List Char → Option (Nat × List Char)
  | '.' :: rest => match digitRun rest with
    | ([], _) => none
    | (ds, rest) =>
      let kept := ds.take 9
      some (digitsValue kept * Nat.pow 10 (9 - kept.length), rest)
  | rest => some (0, rest)

/-- Two digits, the first of which is at most `high`. -/
def twoDigits? (high : Char) : List Char → Option (Nat × List Char)
  | a :: b :: rest =>
    if a.isDigit ∧ b.isDigit ∧ a ≤ high then some (digitsValue [a, b], rest) else none
  | _ => none

/-- Seconds to the east, from hours and minutes with colons or blanks between them. -/
def clockOffset? (cs : List Char) : Option (Nat × List Char) := do
  let (hours, rest) ← twoDigits? '9' cs
  let (minutes, rest) ← twoDigits? '5' (rest.dropWhile fun c => c = ':' || isBlank c)
  return (hours * 3600 + minutes * 60, rest)

/-- The offset from universal time: `UTC` or `Z` in any case, or a sign, hours and minutes. -/
def offset? (cs : List Char) : Option (Int × List Char) :=
  match cs with
  | u :: t :: c :: rest =>
    if u.toLower = 'u' ∧ t.toLower = 't' ∧ c.toLower = 'c' then some (0, rest) else signed cs
  | _ => signed cs
where
  signed : List Char → Option (Int × List Char)
    | 'Z' :: rest => some (0, rest)
    | 'z' :: rest => some (0, rest)
    | '+' :: rest => (clockOffset? rest).map fun (s, rest) => ((s : Int), rest)
    | '-' :: rest => (clockOffset? rest).map fun (s, rest) => (-(s : Int), rest)
    | '−' :: rest => (clockOffset? rest).map fun (s, rest) => (-(s : Int), rest)
    | _ => none

/-- The moment of a local date and time. Second 60 is a leap second. -/
def ofLocal? (date : Date) (hour minute second part : Nat) (offset : Int) : Option Moment :=
  if date.isValid ∧ hour < 24 ∧ minute < 60 ∧ second ≤ 60 ∧ offset.natAbs < 86400 then
    let leap := second = 60
    let seconds := date.toDays * 86400 + hour * 3600 + minute * 60 +
      (if leap then 59 else second : Nat) - offset
    let m : Moment := ⟨seconds, part + if leap then 1000000000 else 0⟩
    if Date.yearInRange m.date.year then some m else none
  else none

/-- Reads a date, a `T` or a blank, a time of day and an offset, with blanks between them. -/
def read? (s : String) : Option Moment := do
  let (year, rest) ← year? s.toList
  let (month, rest) ← field? 2 (← mark? '-' rest)
  let (day, rest) ← field? 2 (← mark? '-' rest)
  let rest ← match rest with
    | 't' :: rest => some rest
    | 'T' :: rest => some rest
    | ' ' :: rest => some rest
    | _ => none
  let (hour, rest) ← field? 2 rest
  let (minute, rest) ← field? 2 (← mark? ':' rest)
  let (second, rest) ← field? 2 (← mark? ':' rest)
  let (part, rest) ← part? rest
  let (offset, rest) ← offset? (skipBlanks rest)
  if skipBlanks rest = [] then ofLocal? ⟨year, month, day⟩ hour minute second part offset else none

end Moment

end Lagmeter
