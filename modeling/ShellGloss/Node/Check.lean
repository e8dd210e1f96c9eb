import ShellGloss.Node.Basic

/-!
# Checking a tree

A tree that can be read may still be impossible: a span that is empty, siblings
that overlap, a part outside its parent. `Node.check` finds the first fault of a
tree by itself, `Node.checkStarts` the first node that starts outside a source of
a given length. A node may well end outside.

A fault names the node at fault, the span that is wrong, which may be that of an
embedded part, and the rule that is broken.
-/

namespace ShellGloss

/-- A rule about spans, with what it is measured against. -/
inductive SpanFault where
  | emptyOrReversed
  /-- The span is not within the parent, of that kind and span. -/
  | outsideParent (kind : Kind) (span : Span)
  /-- The sibling before ends at that offset, after the start of the span. -/
  | overlapsSibling (stop : Nat)
  /-- The option before in a sticky word ends at that offset, not at the start of the span. -/
  | notContiguous (stop : Nat)
  /-- The option or argument of a node is not within the node. -/
  | partOutsideNode
  | argumentBeforeOption
  | outputBeforeOperator
  /-- The source has only so many characters. -/
  | beyondSource (length : Nat)
deriving DecidableEq, Repr

/-- A rule about what a node may hold. -/
inductive ContentFault where
  | manyPrograms (count : Nat)
  | ungroupable (kind : Kind)
deriving DecidableEq, Repr

/-- A broken rule and where. -/
inductive Violation where
  | badSpan (kind : Kind) (span : Span) (fault : SpanFault)
  | badContent (kind : Kind) (span : Span) (fault : ContentFault)
deriving DecidableEq, Repr

/-- The wording of a fault. -/
def SpanFault.message : SpanFault → String
  | emptyOrReversed => "range is empty or reversed"
  | outsideParent kind span => "lies outside its parent " ++ kind.name ++ " " ++ span.render
  | overlapsSibling stop =>
    "overlaps or precedes the previous sibling ending at " ++ toString stop
  | notContiguous stop => "is not contiguous with the grouped option ending at " ++ toString stop
  | partOutsideNode => "embedded part lies outside the node"
  | argumentBeforeOption => "argument starts before the option ends"
  | outputBeforeOperator => "output word must follow the redirect operator"
  | beyondSource length => "starts beyond the " ++ toString length ++ "-character source"

/-- The wording of a fault. -/
def ContentFault.message : ContentFault → String
  | manyPrograms count => "has " ++ toString count ++ " program nodes"
  | ungroupable kind => "groups a " ++ kind.name ++ " node; only options may be grouped"

/-- The wording of a violation. -/
def Violation.message : Violation → String
  | badSpan kind span fault =>
    "invalid range " ++ span.render ++ " on " ++ kind.name ++ " node: " ++ fault.message
  | badContent kind span fault =>
    "invalid " ++ kind.name ++ " node at " ++ span.render ++ ": " ++ fault.message

/-- The outcome of a check. -/
abbrev Checked : Type :=
  Except Violation Unit

/-- Refuses a span unless a condition holds. -/
def requireSpan (condition : Bool) (kind : Kind) (span : Span) (fault : SpanFault) : Checked :=
  if condition then .ok () else .error (.badSpan kind span fault)

/-- Refuses an empty span. -/
def requireNonempty (kind : Kind) (span : Span) : Checked :=
  requireSpan (!span.isEmpty) kind span .emptyOrReversed

namespace Node

/-! ## Siblings -/

/-- A span must not start before the sibling before it has ended. -/
def requireAfter (before : Option Nat) (kind : Kind) (span : Span) : Checked :=
  match before with
  | none => .ok ()
  | some stop => requireSpan (stop ≤ span.start) kind span (.overlapsSibling stop)

/-- Siblings must be nonempty, inside their parent, and each must start where the
one before has ended or later; `before` is where that is. -/
def checkSiblings (parent : Kind) (outer : Span) : Option Nat → List Node → Checked
  | _, [] => .ok ()
  | before, n :: ns => do
    requireNonempty n.kind n.span
    requireSpan (outer.encloses n.span) n.kind n.span (.outsideParent parent outer)
    requireAfter before n.kind n.span
    checkSiblings parent outer (some n.span.stop) ns

/-- A command has at most one program among its parts. -/
def checkPrograms (kind : GroupKind) (span : Span) (parts : List Node) : Checked :=
  let count := parts.countP isProgram
  if kind = .command && 1 < count then .error (.badContent .command span (.manyPrograms count))
  else .ok ()

/-- Only options may stand in a sticky word. -/
def checkGroupable (span : Span) (options : List Node) : Checked :=
  match options.find? fun o => !o.isOption with
  | some o => .error (.badContent .stickyOption span (.ungroupable o.kind))
  | none => .ok ()

/-- Options of a sticky word must leave no gap. -/
def checkContiguous : List Node → Checked
  | a :: b :: rest => do
    requireSpan (b.span.start = a.span.stop) b.kind b.span (.notContiguous a.span.stop)
    checkContiguous (b :: rest)
  | _ => .ok ()

/-! ## Embedded parts -/

/-- A part of an option with a value must be nonempty and inside the node. -/
def checkPart (outer part : Span) : Checked := do
  requireNonempty .optionWithArg part
  requireSpan (outer.encloses part) .optionWithArg part .partOutsideNode

/-- The option comes before its value. -/
def checkBound (o : BoundFlag) : Checked := do
  checkPart o.span o.option.span
  checkPart o.span o.argument.span
  requireSpan (o.option.span.stop ≤ o.argument.span.start) .optionWithArg o.argument.span
    .argumentBeforeOption

/-- The output word of a redirect comes after its start. -/
def checkRedirect (r : Redirect) : Checked :=
  match r.output with
  | none => .ok ()
  | some w => do
    requireNonempty .redirect w.span
    requireSpan (r.span.start < w.span.start) .redirect w.span .outputBeforeOperator

/-! ## Trees -/

mutual

/-- The first broken rule of a tree: first those of the node itself and its
children, then those of the parts in turn. -/
def check : Node → Checked
  | program p => requireNonempty .program p.span
  | subcommand s => requireNonempty .subcommand s.span
  | option o => requireNonempty .option o.span
  | assignment a => requireNonempty .assignment a.span
  | word k w => requireNonempty k.kind w.span
  | optionWithArg o => do
    requireNonempty .optionWithArg o.span
    checkBound o
  | redirect r => do
    requireNonempty .redirect r.span
    checkRedirect r
  | sticky span _ options => do
    requireNonempty .stickyOption span
    checkGroupable span options
    checkSiblings .stickyOption span none options
    checkContiguous options
  | group kind span parts => do
    requireNonempty kind.kind span
    checkSiblings kind.kind span none parts
    checkPrograms kind span parts
    checkEach parts

/-- The first broken rule of several trees. -/
def checkEach : List Node → Checked
  | [] => .ok ()
  | n :: ns => do
    n.check
    checkEach ns

end

/-! ## Trees and their source -/

/-- A span must start inside a source of `length` characters. -/
def requireStart (length : Nat) (kind : Kind) (span : Span) : Checked :=
  requireSpan (span.start < length) kind span (.beyondSource length)

/-- The output word of a redirect must start inside the source. -/
def requireOutputStart (length : Nat) (r : Redirect) : Checked :=
  match r.output with
  | none => .ok ()
  | some w => requireStart length .redirect w.span

mutual

/-- The first span of a tree that starts outside a source of `length` characters. -/
def checkStarts (length : Nat) : Node → Checked
  | program p => requireStart length .program p.span
  | subcommand s => requireStart length .subcommand s.span
  | option o => requireStart length .option o.span
  | assignment a => requireStart length .assignment a.span
  | word k w => requireStart length k.kind w.span
  | optionWithArg o => do
    requireStart length .optionWithArg o.span
    requireStart length .optionWithArg o.option.span
    requireStart length .optionWithArg o.argument.span
  | redirect r => do
    requireStart length .redirect r.span
    requireOutputStart length r
  | sticky span _ options => do
    requireStart length .stickyOption span
    checkStartsEach length options
  | group kind span parts => do
    requireStart length kind.kind span
    checkStartsEach length parts

/-- The first span of several trees that starts outside the source. -/
def checkStartsEach (length : Nat) : List Node → Checked
  | [] => .ok ()
  | n :: ns => do
    n.checkStarts length
    checkStartsEach length ns

end

end Node

end ShellGloss
