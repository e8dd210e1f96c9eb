/-!
# Kinds of node

Sixteen kinds of node make up the tree of a command line. Six of them carry
nothing but a word and three of them nothing but their parts; those two
families have types of their own, so that a node of such a kind is one case.
-/

namespace ShellGloss

/-- The kind of a node, in the order in which messages list them. -/
inductive Kind where
  | program
  | subcommand
  | option
  | optionWithArg
  | stickyOption
  | argument
  | assignment
  | operator
  | pipe
  | redirect
  | reservedWord
  | word
  /-- The word that has the rest of the command run as another user. -/
  | superuser
  | command
  | list
  | pipeline
deriving DecidableEq, Repr, Inhabited

namespace Kind

/-- Every kind, in order. -/
def all : List Kind :=
  [program, subcommand, option, optionWithArg, stickyOption, argument, assignment, operator,
    pipe, redirect, reservedWord, word, superuser, command, list, pipeline]

/-- The name of a kind, as a tree's `kind` field spells it. -/
def name : Kind → String
  | program => "program"
  | subcommand => "subcommand"
  | option => "option"
  | optionWithArg => "optionWithArg"
  | stickyOption => "stickyOption"
  | argument => "argument"
  | assignment => "assignment"
  | operator => "operator"
  | pipe => "pipe"
  | redirect => "redirect"
  | reservedWord => "reservedWord"
  | word => "word"
  | superuser => "sudo"
  | command => "command"
  | list => "list"
  | pipeline => "pipeline"

/-- The kind of that name. -/
def ofName? (s : String) : Option Kind :=
  all.find? fun k => k.name == s

/-- Nodes of this kind hold parts of any kind. -/
def isComposite : Kind → Bool
  | command | list | pipeline => true
  | _ => false

theorem mem_all (k : Kind) : k ∈ all := by
  cases k <;> decide

@[simp] theorem ofName?_name (k : Kind) : ofName? k.name = some k := by
  cases k <;> decide

theorem name_injective {a b : Kind} (h : a.name = b.name) : a = b := by
  simpa using congrArg ofName? h

end Kind

/-- The kinds of node that are one word and nothing more. -/
inductive WordKind where
  | argument
  | operator
  | pipe
  | reservedWord
  | word
  | superuser
deriving DecidableEq, Repr, Inhabited

/-- The kinds of node that hold a list of parts. -/
inductive GroupKind where
  | command
  | list
  | pipeline
deriving DecidableEq, Repr, Inhabited

/-- A word kind among all kinds. -/
def WordKind.kind : WordKind → Kind
  | argument => .argument
  | operator => .operator
  | pipe => .pipe
  | reservedWord => .reservedWord
  | word => .word
  | superuser => .superuser

/-- A group kind among all kinds. -/
def GroupKind.kind : GroupKind → Kind
  | command => .command
  | list => .list
  | pipeline => .pipeline

@[simp] theorem GroupKind.isComposite_kind (k : GroupKind) : k.kind.isComposite = true := by
  cases k <;> rfl

@[simp] theorem WordKind.isComposite_kind (k : WordKind) : k.kind.isComposite = false := by
  cases k <;> rfl

end ShellGloss
