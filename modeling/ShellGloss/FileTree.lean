/-!
# Files below a directory

The files below one directory, each a text. A directory is there when a file is
below it. Names are resolved against that directory, step by step: a step other
than the last must lead to a directory.
-/

namespace ShellGloss

/-- The steps of a name: what stands between its slashes. -/
def stepsOf : List Char → List (List Char)
  | [] => [[]]
  | c :: cs =>
    if c = '/' then [] :: stepsOf cs
    else
      match stepsOf cs with
      | [] => [[c]]
      | s :: ss => (c :: s) :: ss

/-- Where a file is, as the names of the directories that lead to it and its own. -/
abbrev Location : Type :=
  List (List Char)

/-- The files below the directory `root`. -/
structure FileTree where
  root : String
  files : List (Location × String)

namespace FileTree

/-- The location is that of a directory. -/
def isDirectory (t : FileTree) (l : Location) : Bool :=
  l.isEmpty || t.files.any fun f => l.isPrefixOf f.1 && l.length < f.1.length

/-- The location is that of a file. -/
def isFile (t : FileTree) (l : Location) : Bool :=
  (t.files.lookup l).isSome

/-- Follows steps from a directory. The last step may lead anywhere below. -/
def follow? (t : FileTree) : Location → List (List Char) → Option Location
  | l, [] => some l
  | l, s :: ss =>
    if !t.isDirectory l then none
    else if s = [] || s = ['.'] then t.follow? l ss
    else if s = ['.', '.'] then (if l.isEmpty then none else t.follow? l.dropLast ss)
    else t.follow? (l ++ [s]) ss

/-- The steps of a name below the directory of the tree, unless it leads elsewhere. -/
def stepsBelow? (t : FileTree) (name : String) : Option (List (List Char)) :=
  let cs := name.toList
  let root := t.root.toList
  if cs.head? ≠ some '/' then some (stepsOf cs)
  else if (root ++ ['/']).isPrefixOf cs then some (stepsOf (cs.drop (root.length + 1)))
  else none

/-- The text of the file of that name. -/
def read? (t : FileTree) (name : String) : Option String := do
  let location ← t.follow? [] (← t.stepsBelow? name)
  t.files.lookup location

/-- A file may be made at a location, with the directories that lead to it. -/
def admits (t : FileTree) (l : Location) : Bool :=
  !t.isDirectory l && (List.range l.length).all fun n => !t.isFile (l.take n)

/-- The tree with another text for a file. -/
def write (t : FileTree) (l : Location) (text : String) : FileTree :=
  { t with files := (l, text) :: t.files.filter fun f => f.1 ≠ l }

/-- The tree with a text added to the end of a file, which is made if it is not
there; nothing when the file cannot be there. -/
def append? (t : FileTree) (name : String) (text : String) : Option FileTree := do
  let steps ← t.stepsBelow? name
  let location := steps.filter fun s => s ≠ [] && s ≠ ['.']
  if t.admits location then some (t.write location ((t.files.lookup location).getD "" ++ text))
  else none

/-- The tree of files with the given names, each a path below the root. -/
def ofList (root : String) (files : List (String × String)) : FileTree :=
  files.foldl (fun t f =>
    t.write ((stepsOf f.1.toList).filter fun s => s ≠ [] && s ≠ ['.']) f.2) ⟨root, []⟩

end FileTree

end ShellGloss
