import ShellGloss.Node.Basic

/-!
# What a command holds

Questions about the nodes directly below a node: its arguments, assignments,
redirects and subcommands, and its program. A node that holds no nodes has no
answer, which is not the same as an empty one.
-/

namespace ShellGloss

/-- The assignment is to that name, and of that value if one is asked for. -/
def Assignment.agrees (a : Assignment) (name : String) : Option String → Bool
  | some value => a.name == name && a.value == value
  | none => a.name == name

namespace Node

/-- The word of an argument. -/
def argument? : Node → Option Word
  | word .argument w => some w
  | _ => none

/-- An assignment. -/
def assignment? : Node → Option Assignment
  | assignment a => some a
  | _ => none

/-- A redirect. -/
def redirect? : Node → Option Redirect
  | redirect r => some r
  | _ => none

/-- A subcommand. -/
def subcommand? : Node → Option Subcommand
  | subcommand s => some s
  | _ => none

/-- A program. -/
def program? : Node → Option Program
  | program p => some p
  | _ => none

/-- The literal word `sudo`, whatever its kind. -/
def isSudoWord (n : Node) : Bool :=
  n.text? == some "sudo"

/-! ## Children of one kind -/

/-- The arguments below a node. -/
def arguments? (n : Node) : Option (List Word) :=
  n.children?.map fun cs => cs.filterMap argument?

/-- The assignments below a node. -/
def assignments? (n : Node) : Option (List Assignment) :=
  n.children?.map fun cs => cs.filterMap assignment?

/-- The redirects below a node. -/
def redirects? (n : Node) : Option (List Redirect) :=
  n.children?.map fun cs => cs.filterMap redirect?

/-- The subcommands below a node. -/
def subcommands? (n : Node) : Option (List Subcommand) :=
  n.children?.map fun cs => cs.filterMap subcommand?

/-- The last node below a node. -/
def lastChild? (n : Node) : Option Node :=
  n.children?.bind List.getLast?

/-! ## The program -/

/-- The place of the program among the children. -/
def programIndex? (n : Node) : Option Nat :=
  n.children?.bind fun cs => cs.findIdx? isProgram

/-- The program among the children. -/
def commandProgram? (n : Node) : Option Program :=
  n.children?.bind fun cs => cs.findSome? program?

/-- The program has that canonical name. -/
def runsProgram (n : Node) (name : String) : Bool :=
  match n.commandProgram? with
  | some p => p.name == name
  | none => false

/-- The subcommand at that place is that word. -/
def hasSubcommand (n : Node) (name : String) (index : Nat) : Bool :=
  match n.subcommands? with
  | some ss =>
    match ss[index]? with
    | some s => s.word == name
    | none => false
  | none => false

/-- The word `sudo` is among the children. -/
def usesSudo (n : Node) : Bool :=
  match n.children? with
  | some cs => cs.any isSudoWord
  | none => false

/-! ## Assignments -/

/-- The node assigns that value to that name. -/
def assigns (n : Node) (name value : String) : Bool :=
  match n.assignment? with
  | some a => a.name == name && a.value == value
  | none => false

/-- An assignment to that name, of that value if one is asked for, is among the children. -/
def hasAssignment (n : Node) (name : String) (value : Option String) : Bool :=
  match n.assignments? with
  | some as => as.any fun a => a.agrees name value
  | none => false

end Node

end ShellGloss
