import ShellGloss.Span
import ShellGloss.Node.Kind

/-!
# The tree of a command line

The nodes that a shell parser delivers. Every node covers a span of the source;
a node is a single word, a word with more said about it, a compound of two
parts, or a group of further nodes.
-/

namespace ShellGloss

/-- A literal word and where it stands. -/
structure Word where
  span : Span
  word : String
deriving DecidableEq, Repr, Inhabited

/-- What is known of a program or subcommand. -/
structure CommandSchema where
  name : String
  summary : String
deriving DecidableEq, Repr, Inhabited

/-- What is known of an option: its spellings, its purpose, and whether it takes
a value, in the next word or glued to it. -/
structure OptionSchema where
  long : List String
  short : List String
  summary : String
  expectsArg : Bool
  argInNextToken : Bool
deriving DecidableEq, Repr, Inhabited

/-- The program that is run. `name` is its canonical name: `ls` for the word `/usr/bin/ls`. -/
structure Program where
  span : Span
  word : String
  name : String
  schema : Option CommandSchema
deriving DecidableEq, Repr, Inhabited

/-- A subcommand, such as `commit` after `git`. -/
structure Subcommand where
  span : Span
  word : String
  schema : Option CommandSchema
deriving DecidableEq, Repr, Inhabited

/-- A single option. `name` is the option that the word stands for. -/
structure Flag where
  span : Span
  word : String
  name : String
  schema : Option OptionSchema
deriving DecidableEq, Repr, Inhabited

/-- An option together with its value: `--output=file` or `-o file`. -/
structure BoundFlag where
  span : Span
  option : Flag
  argument : Word
deriving DecidableEq, Repr, Inhabited

/-- `NAME=value`, the value possibly empty. -/
structure Assignment where
  span : Span
  name : String
  value : String
deriving DecidableEq, Repr, Inhabited

/-- The redirect operators. -/
inductive RedirectOp where
  | write
  | append
  | clobber
  | read
  | duplicate
  | writeBoth
  | appendBoth
deriving DecidableEq, Repr, Inhabited

namespace RedirectOp

/-- Every redirect operator, in the order in which messages list them. -/
def all : List RedirectOp :=
  [write, append, clobber, read, duplicate, writeBoth, appendBoth]

/-- The operator as the shell writes it. -/
def text : RedirectOp → String
  | write => ">"
  | append => ">>"
  | clobber => ">|"
  | read => "<"
  | duplicate => ">&"
  | writeBoth => "&>"
  | appendBoth => "&>>"

/-- The operator written so. -/
def ofText? (s : String) : Option RedirectOp :=
  all.find? fun op => op.text == s

@[simp] theorem ofText?_text (op : RedirectOp) : ofText? op.text = some op := by
  cases op <;> decide

end RedirectOp

/-- A redirect: an optional descriptor, an operator, and a word or a descriptor as its target. -/
structure Redirect where
  span : Span
  op : RedirectOp
  input : Option Nat
  output : Option Word
  outputFd : Option Nat
deriving DecidableEq, Repr, Inhabited

/-- A node of the tree. A `sticky` node groups options written in one word (`-la`). -/
inductive Node where
  | program (program : Program)
  | subcommand (subcommand : Subcommand)
  | option (option : Flag)
  | optionWithArg (option : BoundFlag)
  | sticky (span : Span) (word : String) (options : List Node)
  | assignment (assignment : Assignment)
  | redirect (redirect : Redirect)
  | word (kind : WordKind) (word : Word)
  | group (kind : GroupKind) (span : Span) (parts : List Node)
deriving Repr, Inhabited

namespace Node

/-- The kind of a node. -/
def kind : Node → Kind
  | program _ => .program
  | subcommand _ => .subcommand
  | option _ => .option
  | optionWithArg _ => .optionWithArg
  | sticky .. => .stickyOption
  | assignment _ => .assignment
  | redirect _ => .redirect
  | word k _ => k.kind
  | group k _ _ => k.kind

/-- The span that a node covers. -/
def span : Node → Span
  | program p => p.span
  | subcommand s => s.span
  | option o => o.span
  | optionWithArg o => o.span
  | sticky s _ _ => s
  | assignment a => a.span
  | redirect r => r.span
  | word _ w => w.span
  | group _ s _ => s

/-- The literal word of a node that is one word. -/
def text? : Node → Option String
  | program p => some p.word
  | subcommand s => some s.word
  | option o => some o.word
  | sticky _ w _ => some w
  | word _ w => some w.word
  | optionWithArg _ | assignment _ | redirect _ | group .. => none

/-- The parts of a group. -/
def parts? : Node → Option (List Node)
  | group _ _ ps => some ps
  | _ => none

/-- The nodes directly below a node: the parts of a group or the options of a sticky word. -/
def children? : Node → Option (List Node)
  | sticky _ _ os => some os
  | group _ _ ps => some ps
  | _ => none

/-- The node reached by following child positions from the root. -/
def descend? : Node → List Nat → Option Node
  | n, [] => some n
  | n, i :: path =>
    match n.children? with
    | none => none
    | some cs =>
      match cs[i]? with
      | none => none
      | some c => c.descend? path

/-- The nodes directly below a node, none for a node that holds no others. -/
def children (n : Node) : List Node :=
  n.children?.getD []

/-- The node is a program. -/
def isProgram : Node → Bool
  | program _ => true
  | _ => false

/-- The node is a single option. -/
def isOption : Node → Bool
  | option _ => true
  | _ => false

theorem isProgram_iff_kind {n : Node} : n.isProgram = true ↔ n.kind = .program := by
  cases n <;> simp [isProgram, kind]
  · rename_i k _; cases k <;> simp [WordKind.kind]
  · rename_i k _ _; cases k <;> simp [GroupKind.kind]

theorem isOption_iff_kind {n : Node} : n.isOption = true ↔ n.kind = .option := by
  cases n <;> simp [isOption, kind]
  · rename_i k _; cases k <;> simp [WordKind.kind]
  · rename_i k _ _; cases k <;> simp [GroupKind.kind]

/-! ## Going down a tree -/

/-- Induction over a tree: a sticky word may assume the property of its options,
a group that of its parts. -/
@[elab_as_elim, induction_eliminator]
theorem induct {motive : Node → Prop}
    (program : ∀ p, motive (.program p))
    (subcommand : ∀ s, motive (.subcommand s))
    (option : ∀ o, motive (.option o))
    (optionWithArg : ∀ o, motive (.optionWithArg o))
    (sticky : ∀ s w os, (∀ o ∈ os, motive o) → motive (.sticky s w os))
    (assignment : ∀ a, motive (.assignment a))
    (redirect : ∀ r, motive (.redirect r))
    (word : ∀ k w, motive (.word k w))
    (group : ∀ k s ps, (∀ p ∈ ps, motive p) → motive (.group k s ps)) :
    ∀ n, motive n := by
  intro n
  refine Node.rec (motive_1 := motive) (motive_2 := fun ns => ∀ n ∈ ns, motive n)
    program subcommand option optionWithArg sticky assignment redirect word group ?_ ?_ n
  · intro n hn
    cases hn
  · intro head tail hhead htail n hn
    rcases List.mem_cons.mp hn with rfl | hn
    · exact hhead
    · exact htail n hn

@[simp] theorem descend?_nil (n : Node) : n.descend? [] = some n := by
  rw [descend?]

@[simp] theorem descend?_cons (n : Node) (i : Nat) (path : List Nat) :
    n.descend? (i :: path) = n.children[i]?.bind (·.descend? path) := by
  rw [descend?, children]
  cases n.children? with
  | none => rfl
  | some cs => cases h : cs[i]? <;> simp [h]

@[simp] theorem children_sticky (s : Span) (w : String) (os : List Node) :
    (sticky s w os).children = os := rfl

@[simp] theorem children_group (k : GroupKind) (s : Span) (ps : List Node) :
    (group k s ps).children = ps := rfl

/-- Induction over a tree in which every node may assume the property of its children. -/
theorem induct_children {motive : Node → Prop}
    (step : ∀ n, (∀ c ∈ n.children, motive c) → motive n) (n : Node) : motive n := by
  induction n with
  | sticky s w os ih => exact step _ ih
  | group k s ps ih => exact step _ ih
  | _ => exact step _ fun c hc => nomatch hc

/-- What holds at every place of a tree holds at its root and in the trees below it. -/
theorem forall_descend?_iff {P : Node → Prop} {n : Node} :
    (∀ path m, n.descend? path = some m → P m) ↔
      P n ∧ ∀ c ∈ n.children, ∀ path m, c.descend? path = some m → P m := by
  constructor
  · intro h
    refine ⟨h [] n (by simp), fun c hc path m hm => ?_⟩
    obtain ⟨i, hi⟩ := List.mem_iff_getElem?.mp hc
    exact h (i :: path) m (by simp [hi, hm])
  · rintro ⟨hroot, hbelow⟩ path m hm
    cases path with
    | nil =>
      obtain rfl : n = m := by simpa using hm
      exact hroot
    | cons i path =>
      rw [descend?_cons] at hm
      obtain ⟨c, hc, hm⟩ := Option.bind_eq_some_iff.mp hm
      exact hbelow c (List.mem_of_getElem? hc) path m hm

end Node

end ShellGloss
