import ShellGloss.Query.Contents

/-!
# Options of a command

The program of a command divides its options: those before it belong to what
wraps it, such as `sudo`, and those after it to the program. A scan of either
side that comes upon a sticky word ends there, with the options of that word.
-/

namespace ShellGloss.Node

/-- The canonical name of an option, with or without a value. -/
def optionName? : Node → Option String
  | option o => some o.name
  | optionWithArg o => some o.option.name
  | _ => none

/-! ## Scanning for options -/

mutual

/-- The options that a sticky word stands for. -/
def grouped? : Node → Option (List Node)
  | sticky _ _ options => some (scanOptions [] options)
  | _ => none

/-- The options among some nodes, after those already `found`. A sticky word takes
the place of all that was found. -/
def scanOptions : List Node → List Node → List Node
  | found, [] => found
  | found, n :: rest =>
    match n.grouped? with
    | some options => options
    | none => scanOptions (if n.optionName?.isSome then found ++ [n] else found) rest

end

mutual

/-- The option of that name in a sticky word, if the node is a sticky word. -/
def findGrouped? (name : String) : Node → Option (Option Node)
  | sticky _ _ options => some (findOption? name options)
  | _ => none

/-- The first option of that name among some nodes. The scan does not go past a sticky word. -/
def findOption? (name : String) : List Node → Option Node
  | [] => none
  | n :: rest =>
    match n.findGrouped? name with
    | some answer => answer
    | none => if n.optionName? = some name then some n else findOption? name rest

end

/-! ## The two sides of a command -/

/-- The children that belong to the program: those from the program of a command
on, or all where there is none. -/
def programSide? : Node → Option (List Node)
  | n@(group .command _ parts) => some (parts.drop (n.programIndex?.getD 0))
  | n => n.children?

/-- The children before the program, none where there is no program. -/
def wrapperSide? (n : Node) : Option (List Node) :=
  n.children?.map fun cs => cs.take (n.programIndex?.getD 0)

/-- The options of the program. -/
def programOptions? (n : Node) : Option (List Node) :=
  n.programSide?.map (scanOptions [])

/-- The option of that name among those of the program. -/
def programOption? (n : Node) (name : String) : Option Node :=
  n.programSide?.bind (findOption? name)

/-- The options of what wraps the program. -/
def wrapperOptions? (n : Node) : Option (List Node) :=
  n.wrapperSide?.map (scanOptions [])

/-- The option of that name among those of what wraps the program. -/
def wrapperOption? (n : Node) (name : String) : Option Node :=
  n.wrapperSide?.bind (findOption? name)

/-! ## Asking for one option -/

/-- The nodes begin with an argument. -/
def startsWithArgument (ns : List Node) : Bool :=
  match ns with
  | n :: _ => n.argument?.isSome
  | [] => false

mutual

/-- An option of that name stands below the node, in a sticky word or outside. When
a value is asked for, an option with a value must have that one, and a bare option
must have some argument right after it. -/
def hasOption (name : String) (value : Option String) : Node → Bool
  | sticky _ _ options => anyOption name value options
  | group _ _ parts => anyOption name value parts
  | _ => false

/-- An option of that name is among the nodes. -/
def anyOption (name : String) (value : Option String) : List Node → Bool
  | [] => false
  | n :: rest =>
    (match n with
      | option o => o.name == name && (value.isNone || startsWithArgument rest)
      | optionWithArg o =>
        o.option.name == name && (value.isNone || value == some o.argument.word)
      | n@(sticky ..) => n.hasOption name value
      | _ => false)
    || anyOption name value rest

end

end ShellGloss.Node
