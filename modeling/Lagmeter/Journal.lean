import Lagmeter.Fault
import Lagmeter.Files
import Lagmeter.Group.Member
import Lagmeter.Log.Event
import Lagmeter.Time.Calendar

/-!
# Journals

Every participant appends to logs of its own. They lie in a directory for the participant, below
one for the tag of the experiment. A session of a log starts with a header line, unless the log
holds raw data. What a session wrote stays, also if it fails.
-/

namespace Lagmeter

structure Journal where
  base : String
  tag : String
  member : Member
  deriving DecidableEq, Inhabited

/-- What a session writes, and possibly the reason why it stopped. -/
structure Writing where
  octets : List UInt8
  failure : Option String := none
  deriving DecidableEq

/-- A session that writes lines. -/
structure Session where
  lines : List String
  failure : Option String := none

namespace Session

def ofLines (lines : List String) : Session := { lines }

def writing (s : Session) : Writing := ⟨Utf8.encode (String.join (s.lines.map (· ++ "\n"))), s.failure⟩

end Session

namespace Journal

/-! ## Paths -/

/-- The directory of all logs of the experiment. -/
def shelf (j : Journal) : String := Path.join j.base j.tag

def directory (j : Journal) : String := Path.join j.shelf j.member.label

def path (j : Journal) (name : String) : String := Path.join j.directory name

/-! ## Writing -/

def header (j : Journal) (now : Moment) : String := s!"HOST: {j.member.host} DATE: {now.header}"

structure Written where
  result : Except Fault String
  files : Files
  events : List Event

def because (context : String) (e : FileError) : Fault := ⟨[context, e.message]⟩

/-- Appends what a session writes to a log. -/
def append (j : Journal) (files : Files) (name : String) (w : Writing) : Written :=
  match files.createDirectories j.directory with
  | .error e => ⟨.error (because s!"Failed to create log directory {j.directory}" e), files, []⟩
  | .ok files =>
    match files.append (j.path name) w.octets with
    | .error e => ⟨.error (because s!"Failed to open log {j.path name}" e), files, []⟩
    | .ok files =>
      match w.failure with
      | some reason => ⟨.error ⟨[s!"Failed to write log {j.path name}", reason]⟩, files, []⟩
      | none => ⟨.ok (j.path name), files, [⟨.debug, s!"Wrote log {j.path name}"⟩]⟩

/-- The header line of a session, if its moment is given. -/
def heading (j : Journal) : Option Moment → List UInt8
  | none => []
  | some now => Utf8.encode (j.header now ++ "\n")

/-- A session of a log, with a header or without one. -/
def enter (j : Journal) (files : Files) (now : Option Moment) (name : String) (w : Writing) : Written :=
  j.append files name { w with octets := j.heading now ++ w.octets }

/-- A session of a log with a header. -/
def log (j : Journal) (files : Files) (now : Moment) (name : String) (session : Session) : Written :=
  j.enter files (some now) name session.writing

/-- A session of a log of raw data. -/
def raw (j : Journal) (files : Files) (name : String) (session : Session) : Written :=
  j.enter files none name session.writing

/-! ## Pages -/

/-- One session of one of a participant's logs. -/
structure Page where
  name : String
  lines : List String
  /-- Whether the session starts with a header. -/
  headed : Bool := true

structure Filed where
  result : Except Fault Unit
  files : Files
  events : List Event

def writePage (j : Journal) (files : Files) (now : Moment) (p : Page) : Written :=
  if p.headed then j.log files now p.name (.ofLines p.lines) else j.raw files p.name (.ofLines p.lines)

/-- Writes pages one after the other, up to the first that cannot be written. -/
def file (j : Journal) (files : Files) (now : Moment) : List Page → Filed
  | [] => ⟨.ok (), files, []⟩
  | p :: rest =>
    let w := j.writePage files now p
    match w.result with
    | .error e => ⟨.error e, w.files, w.events⟩
    | .ok _ =>
      let others := j.file w.files now rest
      { others with events := w.events ++ others.events }

/-! ## Reading -/

/-- The logs of one name of all participants of the experiment. -/
def paths (j : Journal) (files : Files) (name : String) : Except Fault (List String) :=
  if !files.isThere j.shelf then .ok []
  else match files.list j.shelf with
    | .error e => .error (because s!"Failed to list {j.shelf}" e)
    | .ok labels =>
      let found := (labels.map fun l => Path.join (Path.join j.shelf l) name).filter files.isFile
      .ok (found.mergeSort fun a b => !(Path.names b).lex (Path.names a))

def readLog (files : Files) (path : String) : Except Fault String :=
  match files.readText path with
  | .ok s => .ok s
  | .error e => .error (because s!"Failed to read log {path}" e)

end Journal

end Lagmeter
