import ShellGloss.Log.Time
import ShellGloss.Session
import Std.Time.DateTime.Timestamp

/-!
# The program

Reads the environment, the overlay file and the input, lets the library answer,
and writes the answer.
-/

namespace ShellGloss.Main

/-- The variables that the program looks at: its own, and those in the name of the
overlay file. -/
def readEnvironment : IO Environment := do
  let own ← ["HOME", "NO_COLOR", configVariable].mapM fun name => do
    return (name, ← IO.getEnv name)
  let name := ((own.lookup configVariable).join.getD usualConfigName).toList
  let mentioned := (TemplatePiece.parse 0 name).filterMap fun
    | .reference name _ => some (String.ofList name)
    | .char _ => none
  let others ← (mentioned.filter fun name => !name.isEmpty).mapM fun name => do
    return (name, ← IO.getEnv name)
  let all := own ++ others
  return fun name => (all.lookup name).join

/-- The text of a file that can be read and is a text. -/
def readFile? (name : String) : IO (Option String) := do
  try return some (← IO.FS.readFile name) catch _ => return none

/-- The text of the input, if it is one. -/
def readInput? : IO (Option String) := do
  try return String.fromUTF8? (← (← IO.getStdin).readBinToEnd) catch _ => return none

/-- The present time. -/
def now : IO String := do
  return Log.timeText (← Std.Time.Timestamp.now).toSecondsSinceUnixEpoch.val.toNat

/-- Adds records to the log, if there can be one. -/
def writeLog (env : Environment) (records : List Log.Record) : IO Unit := do
  match logDirectory? env, logPath? env with
  | some directory, some path =>
    try
      IO.FS.createDirAll directory
      let log ← IO.FS.Handle.mk path .append
      log.putStr (Log.linesOf (← now) records)
    catch _ => return
  | _, _ => return

end ShellGloss.Main

open ShellGloss in
/-- Runs the program. -/
def main (arguments : List String) : IO UInt32 := do
  let env ← Main.readEnvironment
  let known := (Flags.read arguments).isOk
  let overlay ← if known then Main.readFile? (configPath env) else pure none
  let input ← if known then Main.readInput? else pure none
  let response := respond arguments (.ofEnvironment env) overlay input
  match response.written? with
  | some records => Main.writeLog env records
  | none => pure ()
  for complaint in response.outcome.complaints do
    IO.eprintln complaint
  IO.print response.outcome.output
  return response.outcome.code.toUInt32
