import Lagmeter.Blocks
import Lagmeter.Cycle.Seat
import Lagmeter.Report.Run

/-!
# Sites

Where a rank runs a whole experiment it has its seat in the group, its store, random numbers, and
the files.
-/

namespace Lagmeter

/-- What a rank can ask for during an experiment. -/
inductive SiteCall where
  | seat (call : SeatCall)
  | work (call : WorkCall)
  /-- Draws this rank's share of a key set. -/
  | drawKeys (blocks : Blocks)
  /-- Opens the structure that this rank is to use. -/
  | openStructure (name : String)
  /-- Lets the watcher listen to the structure. The answer is the number of the listener. -/
  | subscribe
  /-- Takes a node. -/
  | play (node : Node)
  | findLogs (journal : Journal) (name : String)
  | readLog (path : String)
  | writeReport (report : Report) (path : String)

def SiteCall.Answer : SiteCall → Type
  | .seat call => call.Answer
  | .work call => call.Answer
  | .drawKeys _ => List Int
  | .openStructure _ => Except StoreError Unit
  | .subscribe => Nat
  | .play _ => Unit
  | .findLogs _ _ => Except Fault (List String)
  | .readLog _ => Except Fault String
  | .writeReport _ _ => Except Fault Unit

/-- What a rank can ask for during an experiment. -/
abbrev Site : Interface := ⟨SiteCall, SiteCall.Answer⟩

namespace Site

def seat {α : Type} (d : Dialogue Seat α) : Dialogue Site α := d.lift SiteCall.seat fun _ => id

def work {α : Type} (d : Dialogue Work α) : Dialogue Site α := d.lift SiteCall.work fun _ => id

def link {α : Type} (d : Dialogue Link α) : Dialogue Site α := seat (Seat.link d)

def log (level : Level) (text : String) : Dialogue Site Unit := link (Link.log level text)

def drawKeys (b : Blocks) : Dialogue Site (List Int) := .ask (SiteCall.drawKeys b) .done

def openStructure (name : String) : Dialogue Site (Except StoreError Unit) :=
  .ask (SiteCall.openStructure name) .done

def subscribe : Dialogue Site Nat := .ask SiteCall.subscribe .done

def play (node : Node) : Dialogue Site Unit := .ask (SiteCall.play node) .done

def findLogs (j : Journal) (name : String) : Dialogue Site (Except Fault (List String)) :=
  .ask (SiteCall.findLogs j name) .done

def readLog (path : String) : Dialogue Site (Except Fault String) := .ask (SiteCall.readLog path) .done

def writeReport (r : Report) (path : String) : Dialogue Site (Except Fault Unit) :=
  .ask (SiteCall.writeReport r path) .done

end Site

end Lagmeter
