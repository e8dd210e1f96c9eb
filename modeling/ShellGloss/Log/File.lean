import ShellGloss.Log

/-!
# The log as a text

A record is written on a line of its own: the time, the level between brackets,
who writes, and the message. A message may go on over further lines. `recordsOf`
reads back what `Record.line` writes.
-/

namespace ShellGloss.Log

/-! ## Writing -/

/-- Who writes the records. -/
def target : String :=
  "shellexplain"

/-- A record as a log holds it, under the given time. -/
def Record.line (time : String) (r : Record) : String :=
  time ++ " [" ++ r.level.name ++ "] " ++ target ++ ": " ++ r.message ++ "\n"

/-- Records as a log holds them. -/
def linesOf (time : String) (rs : List Record) : String :=
  String.join (rs.map (Record.line time))

/-! ## Reading -/

/-- A text before and after the first place where `mark` stands. -/
def splitAt? (mark : List Char) : List Char → Option (List Char × List Char)
  | [] => none
  | c :: cs =>
    if mark.isPrefixOf (c :: cs) then some ([], (c :: cs).drop mark.length)
    else (splitAt? mark cs).map fun r => (c :: r.1, r.2)

/-- The level of that name. -/
def Level.ofName? (name : List Char) : Option Level :=
  Level.all.find? fun l => l.name.toList == name

/-- The record that begins with a line. -/
def recordOf? (line : List Char) : Option Record := do
  let (time, rest) ← splitAt? [' ', '['] line
  let (level, rest) ← splitAt? [']', ' '] rest
  let level ← Level.ofName? level
  let (_, message) ← splitAt? [':', ' '] rest
  if time.getLast? = some 'Z' && !time.contains ' ' then some ⟨level, String.ofList message⟩
  else none

/-- The lines of a text, without the break after each. -/
def lines : List Char → List (List Char)
  | [] => []
  | c :: cs =>
    if c = '\n' then [] :: lines cs
    else
      match lines cs with
      | [] => [[c]]
      | l :: ls => (c :: l) :: ls

/-- A line taken in after the records already `found`, the last of them first: it
begins a record, or goes on with the message of the last. -/
def takeLine (found : List Record) (line : List Char) : List Record :=
  match recordOf? line, found with
  | some r, _ => r :: found
  | none, [] => []
  | none, r :: rs => ⟨r.level, r.message ++ "\n" ++ String.ofList line⟩ :: rs

/-- The records of a log. -/
def recordsOf (text : String) : List Record :=
  ((lines text.toList).foldl takeLine []).reverse

end ShellGloss.Log
