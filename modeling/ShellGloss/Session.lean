import ShellGloss.CommandLine
import ShellGloss.Config.Location
import ShellGloss.FileTree
import ShellGloss.Log.File

/-!
# Sessions

A session is a row of runs below one directory. A run reads the overlay file and
adds its records to the log, which later runs find there.
-/

namespace ShellGloss

/-- Colors are suppressed where the variable `NO_COLOR` is set and not empty. -/
def ColorMode.ofEnvironment (env : Environment) : ColorMode :=
  match env "NO_COLOR" with
  | some value => if value.isEmpty then .shown else .suppressed
  | none => .shown

namespace Session

/-- The files after a run: its records are added to the log where there can be one. -/
def logged (env : Environment) (time : String) (t : FileTree) (r : Response) : FileTree :=
  match r.written?, logPath? env with
  | some records, some path => (t.append? path (Log.linesOf time records)).getD t
  | _, _ => t

/-- A run in the directory of the files. -/
def run (env : Environment) (time : String) (t : FileTree) (arguments : List String)
    (input : Option String) : Outcome × FileTree :=
  let r := respond arguments (.ofEnvironment env) (t.read? (configPath env)) input
  (r.outcome, logged env time t r)

/-- The records of the log, where there is one. -/
def log? (t : FileTree) (path : String) : Option (List Log.Record) :=
  (t.read? path).map Log.recordsOf

end Session

end ShellGloss
