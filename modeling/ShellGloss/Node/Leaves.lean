import ShellGloss.Node.Basic

/-!
# Leaves

The leaves of a tree from left to right. Groups give way to the leaves of their
parts, and a sticky word to the options that it groups; every other node is a leaf.
-/

namespace ShellGloss.Node

mutual

/-- The leaves of a tree. -/
def leaves : Node → List Node
  | group _ _ parts => leavesOfAll parts
  | sticky _ _ options => options
  | n@(program _) | n@(subcommand _) | n@(option _) | n@(optionWithArg _) | n@(assignment _)
  | n@(redirect _) | n@(word ..) => [n]

/-- The leaves of several trees. -/
def leavesOfAll : List Node → List Node
  | [] => []
  | n :: ns => n.leaves ++ leavesOfAll ns

end

theorem leavesOfAll_eq_flatMap (ns : List Node) : leavesOfAll ns = ns.flatMap leaves := by
  induction ns with
  | nil => rfl
  | cons n ns ih => rw [leavesOfAll, ih, List.flatMap_cons]

@[simp] theorem leaves_group (k : GroupKind) (s : Span) (parts : List Node) :
    (group k s parts).leaves = parts.flatMap leaves := by
  rw [leaves, leavesOfAll_eq_flatMap]

@[simp] theorem leaves_sticky (s : Span) (w : String) (options : List Node) :
    (sticky s w options).leaves = options := by
  rw [leaves]

end ShellGloss.Node
