import ShellGloss.Node.Kind

/-!
# Roles

A role is what a style is chosen for: a kind of node, or one side of an assignment.
-/

namespace ShellGloss

/-- What a text is in a command line. -/
inductive Role where
  | kind (kind : Kind)
  | assignmentName
  | assignmentValue
deriving DecidableEq, Repr, Inhabited

namespace Role

/-- Every role, in order. -/
def all : List Role :=
  Kind.all.map kind ++ [assignmentName, assignmentValue]

/-- The name of a role. -/
def name : Role → String
  | kind k => k.name
  | assignmentName => "assignmentName"
  | assignmentValue => "assignmentValue"

/-- The role of that name. -/
def ofName? (s : String) : Option Role :=
  all.find? fun r => r.name == s

theorem mem_all (r : Role) : r ∈ all := by
  cases r with
  | kind k => exact List.mem_append_left _ (List.mem_map_of_mem (Kind.mem_all k))
  | assignmentName => decide
  | assignmentValue => decide

@[simp] theorem ofName?_name (r : Role) : ofName? r.name = some r := by
  cases r with
  | kind k => cases k <;> decide
  | assignmentName => decide
  | assignmentValue => decide

theorem name_injective {a b : Role} (h : a.name = b.name) : a = b := by
  simpa using congrArg ofName? h

end Role

end ShellGloss
