/-
  Masquerade.Main — THE PROGRAM.

  The first argument selects the server or the client, the others go to its
  command line.
-/
import Masquerade.Cli
import Std.Time.Format

namespace Masquerade

/-- The draws of some random bytes, 32 to a draw. -/
def drawsOf (bytes : Bytes) : Draws where
  stream n := Bytes.toNatLE ((bytes.drop (32 * n)).take 32)
  used := 0

/-- How many draws a run may need. -/
def drawCount : Nat := 4096

/-- The text of a file, if it can be read. -/
def readText (path : String) : IO (Option String) := do
  try
    return some (← IO.FS.readFile path)
  catch _ =>
    return none

/-- The time of day, as text. -/
def timeOfDay : IO String := do
  let now ← Std.Time.Timestamp.now
  let dateTime := Std.Time.DateTime.ofTimestamp now Std.Time.TimeZone.ZoneRules.UTC
  return dateTime.format "uuuu-MM-dd HH:mm:ss.SSSSSSSSS" ++ " UTC"

/-- Run one of the two programs. -/
def runProgram (program : Cli.Program) (arguments : List String) : IO UInt32 := do
  let path := (arguments.drop 1).headD ""
  let text ← readText path
  let random ← IO.getRandomBytes (USize.ofNat (32 * drawCount))
  let world : Cli.Surroundings :=
    { file? := fun name => if name = path then text else none
      now := ← timeOfDay
      draws := drawsOf random.toList }
  let outcome := Cli.run world program arguments
  for line in outcome.out do
    IO.println line
  for line in outcome.err do
    IO.eprintln line
  return UInt32.ofNat outcome.code

end Masquerade

def main (arguments : List String) : IO UInt32 := do
  match arguments with
  | "server" :: rest => Masquerade.runProgram .server rest
  | "client" :: rest => Masquerade.runProgram .client rest
  | _ =>
    IO.eprintln "usage: masquerade (server | client) [OPTIONS]"
    return 2
