import Lagmeter.Launch
import Std.Time.DateTime.Timestamp

/-!
# The command

Runs a command line on this machine, and leaves its logs and its report in the file system. Logs
that are there already grow.
-/

namespace Lagmeter.Command

def fuel : Nat := Nat.pow 10 18

def hostName : IO String := do
  try
    return String.ofList (trimBlanks (← IO.FS.readFile "/proc/sys/kernel/hostname").toList)
  catch _ => return "localhost"

def processors : IO Nat := do
  try
    let lines ← IO.FS.lines "/proc/cpuinfo"
    return max 1 (lines.filter fun l => "processor".isPrefixOf l).size
  catch _ => return 1

def machine : IO Machine := do
  let now ← Std.Time.Timestamp.now
  return {
    host := ← hostName
    processors := ← processors
    wall := now.toNanosecondsSinceUnixEpoch.val.toNat
    draws := .ofSeed (← IO.rand 0 4294967295) }

/-- Leaves the files of a launch in the file system. -/
def keep (e : Launch.Ending) : IO Unit := do
  for (path, content) in e.files.below [] do
    if let some parent := Path.parent? path then
      if parent ≠ "" then IO.FS.createDirAll parent
    let octets := ByteArray.mk content.toArray
    if e.output.map Path.names = some (Path.names path) then IO.FS.writeBinFile path octets
    else
      let log ← IO.FS.Handle.mk path .append
      log.write octets

end Lagmeter.Command

open Lagmeter in
def main (arguments : List String) : IO UInt32 := do
  let ending := Launch.run (← Command.machine) arguments Command.fuel
  for line in ending.lines do IO.println line
  Command.keep ending
  match ending.usage with
  | some .displayVersion => IO.println version
  | some e => IO.eprintln s!"error: {e.name}"
  | none => pure ()
  if let some line := ending.errorLine then IO.eprintln line
  return ending.exit.toUInt32
