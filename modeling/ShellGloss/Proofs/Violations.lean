import ShellGloss.Proofs.WellFormed
import ShellGloss.Proofs.Wording

/-!
# The first violation

The check of a tree ends at the first rule that is broken. Here all broken rules are
listed, in the order in which the check comes to them (`Node.violations`): for every node,
first its own span, then what concerns its children or embedded parts, then the trees below
it in turn. The check is shown to report the head of that list, and to pass where the list
is empty (`check_eq_firstOf`).

That a listed violation is a true one is said apart from any order: `Node.Breaks` has one
rule for each kind of violation, with the facts about the tree and the message that quotes
them. The list holds the violations of the nodes of the tree in that sense, and no others
(`mem_violations_iff`).
-/

namespace ShellGloss

/-- The violation `v` if a rule is broken. -/
def breach (broken : Prop) [Decidable broken] (v : Violation) : List Violation :=
  if broken then [v] else []

@[simp] theorem mem_breach {p : Prop} [Decidable p] {v w : Violation} :
    v ∈ breach p w ↔ p ∧ v = w := by
  by_cases h : p <;> simp [breach, h]

theorem mem_breach_self {p : Prop} [Decidable p] {v : Violation} (h : p) : v ∈ breach p v :=
  mem_breach.mpr ⟨h, rfl⟩

theorem breach_of_not {p : Prop} [Decidable p] {v : Violation} (h : ¬ p) : breach p v = [] :=
  if_neg h

/-- What a check reports that comes to these violations one after the other. -/
def firstOf : List Violation → Checked
  | [] => .ok ()
  | v :: _ => .error v

theorem firstOf_eq_error_iff {vs : List Violation} {v : Violation} :
    firstOf vs = .error v ↔ vs.head? = some v := by
  cases vs <;> simp [firstOf]

theorem firstOf_append (vs ws : List Violation) :
    firstOf (vs ++ ws) = (do firstOf vs; firstOf ws) := by
  cases vs <;> rfl

/-- What can only be wrong after something else is never reported. -/
theorem firstOf_append_left {vs ws : List Violation} (h : vs = [] → ws = []) :
    firstOf (vs ++ ws) = firstOf vs := by
  cases vs with
  | nil => rw [h rfl]; rfl
  | cons v vs => rfl

theorem requireSpan_eq_firstOf {c : Bool} {p : Prop} [Decidable p] (h : c = false ↔ p)
    (k : Kind) (s : Span) (f : SpanFault) :
    requireSpan c k s f = firstOf (breach p (.badSpan k s f)) := by
  by_cases hp : p
  · simp [requireSpan, breach, firstOf, hp, h.mpr hp]
  · simp [requireSpan, breach, firstOf, hp, Bool.of_not_eq_false fun hc => hp (h.mp hc)]

/-! ## Messages -/

/-- The offsets of a span, as a message quotes them. -/
def interval (s : Span) : String :=
  "[" ++ toString s.start ++ ", " ++ toString s.stop ++ ")"

/-- The message for a span that is at fault, of a node of that kind or of a part of it. -/
def spanMessage (k : Kind) (s : Span) (reason : String) : String :=
  "invalid range " ++ interval s ++ " on " ++ k.name ++ " node: " ++ reason

/-- The message for a node that holds what it must not. -/
def contentMessage (k : Kind) (s : Span) (reason : String) : String :=
  "invalid " ++ k.name ++ " node at " ++ interval s ++ ": " ++ reason

namespace Node

/-! ## The nodes of a tree -/

mutual

/-- All nodes of a tree, each one before those below it. -/
def nodes : Node → List Node
  | sticky s w os => sticky s w os :: nodesOfAll os
  | group k s ps => group k s ps :: nodesOfAll ps
  | n => [n]

/-- All nodes of several trees. -/
def nodesOfAll : List Node → List Node
  | [] => []
  | n :: ns => n.nodes ++ nodesOfAll ns

end

theorem nodesOfAll_eq (ns : List Node) : nodesOfAll ns = ns.flatMap nodes := by
  induction ns with
  | nil => rfl
  | cons n ns ih => rw [nodesOfAll, ih, List.flatMap_cons]

theorem nodes_eq (n : Node) : n.nodes = n :: n.children.flatMap nodes := by
  cases n <;> simp [nodes, nodesOfAll_eq, children, children?]

theorem mem_nodes_self (n : Node) : n ∈ n.nodes := by
  rw [nodes_eq]
  exact List.mem_cons_self

/-- The nodes of a tree are those that a path leads to. -/
theorem mem_nodes_iff {n m : Node} : m ∈ n.nodes ↔ ∃ path, n.descend? path = some m := by
  induction n using induct_children with
  | step n ih =>
    rw [nodes_eq, List.mem_cons, List.mem_flatMap]
    constructor
    · rintro (rfl | ⟨c, hc, hm⟩)
      · exact ⟨[], descend?_nil m⟩
      · obtain ⟨path, hpath⟩ := (ih c hc).mp hm
        obtain ⟨i, hi⟩ := List.mem_iff_getElem?.mp hc
        exact ⟨i :: path, by rw [descend?_cons, hi, Option.bind_some, hpath]⟩
    · rintro ⟨path, hpath⟩
      cases path with
      | nil => exact .inl (by simpa using hpath.symm)
      | cons i path =>
        rw [descend?_cons] at hpath
        obtain ⟨c, hi, hm⟩ := Option.bind_eq_some_iff.mp hpath
        have hc := List.mem_of_getElem? hi
        exact .inr ⟨c, hc, (ih c hc).mpr ⟨path, hm⟩⟩

theorem mem_nodes_of_mem_children {n m c : Node} (hm : m ∈ n.nodes) (hc : c ∈ m.children) :
    c ∈ n.nodes := by
  induction n using induct_children with
  | step n ih =>
    rw [nodes_eq, List.mem_cons, List.mem_flatMap] at hm ⊢
    rcases hm with rfl | ⟨d, hd, hm⟩
    · exact .inr ⟨c, hc, mem_nodes_self c⟩
    · exact .inr ⟨d, hd, ih d hd hm⟩

/-! ## What can be wrong, in order -/

/-- A span without an offset. -/
def emptySpan (k : Kind) (s : Span) : List Violation :=
  breach (s.stop ≤ s.start) (.badSpan k s .emptyOrReversed)

/-- A child that is not within its parent. -/
def escape (parent : Kind) (outer : Span) (c : Node) : List Violation :=
  breach (outer.encloses c.span = false) (.badSpan c.kind c.span (.outsideParent parent outer))

/-- A child that starts before the sibling before it has ended, at `stop`. -/
def overlap (stop : Nat) (c : Node) : List Violation :=
  breach (c.span.start < stop) (.badSpan c.kind c.span (.overlapsSibling stop))

/-- An option that does not start where the option before it has ended, at `stop`. -/
def gap (stop : Nat) (o : Node) : List Violation :=
  breach (o.span.start ≠ stop) (.badSpan o.kind o.span (.notContiguous stop))

/-- What is wrong with siblings, one after the other; `before` is where the sibling before
them has ended. -/
def siblingViolations (parent : Kind) (outer : Span) : Option Nat → List Node → List Violation
  | _, [] => []
  | before, c :: cs =>
    emptySpan c.kind c.span ++ escape parent outer c ++ before.toList.flatMap (overlap · c) ++
      siblingViolations parent outer (some c.span.stop) cs

/-- The gaps between options, one after the other. -/
def gaps : List Node → List Violation
  | a :: b :: rest => gap a.span.stop b ++ gaps (b :: rest)
  | _ => []

/-- The first node of a sticky word that is no option. -/
def ungroupable (span : Span) (options : List Node) : List Violation :=
  (options.find? fun o => !o.isOption).toList.map fun o =>
    .badContent .stickyOption span (.ungroupable o.kind)

/-- A command with more than one program. -/
def extraPrograms (kind : GroupKind) (span : Span) (parts : List Node) : List Violation :=
  breach (kind = .command ∧ 2 ≤ parts.countP isProgram)
    (.badContent .command span (.manyPrograms (parts.countP isProgram)))

/-- What is wrong with a part of an option with a value. -/
def partViolations (outer part : Span) : List Violation :=
  emptySpan .optionWithArg part ++
    breach (outer.encloses part = false) (.badSpan .optionWithArg part .partOutsideNode)

/-- What is wrong with the parts of an option with a value. -/
def boundViolations (o : BoundFlag) : List Violation :=
  partViolations o.span o.option.span ++ partViolations o.span o.argument.span ++
    breach (o.argument.span.start < o.option.span.stop)
      (.badSpan .optionWithArg o.argument.span .argumentBeforeOption)

/-- What is wrong with the output word of a redirect. -/
def outputViolations (r : Redirect) : List Violation :=
  r.output.toList.flatMap fun w =>
    emptySpan .redirect w.span ++
      breach (w.span.start ≤ r.span.start) (.badSpan .redirect w.span .outputBeforeOperator)

/-- What is wrong below a node, in order: with its embedded parts, or with its children one
after the other and then as a whole. In a sticky word it is asked before all else whether
its children may stand there. -/
def innerViolations : Node → List Violation
  | optionWithArg o => boundViolations o
  | redirect r => outputViolations r
  | sticky span _ options =>
    ungroupable span options ++ siblingViolations .stickyOption span none options ++ gaps options
  | group kind span parts =>
    siblingViolations kind.kind span none parts ++ extraPrograms kind span parts
  | program _ | subcommand _ | option _ | assignment _ | word .. => []

/-- What is wrong with a node, in order: with its span, then below it. -/
def ownViolations (n : Node) : List Violation :=
  emptySpan n.kind n.span ++ n.innerViolations

/-- What is wrong with a tree, in order. -/
def violations (n : Node) : List Violation :=
  n.nodes.flatMap ownViolations

/-- The spans of a tree that start outside a source of `length` characters, in order. -/
def lateStarts (length : Nat) (n : Node) : List Violation :=
  n.nodes.flatMap fun m => m.spans.flatMap fun s =>
    breach (length ≤ s.start) (.badSpan m.kind s (.beyondSource length))

theorem violations_eq (n : Node) :
    n.violations = n.ownViolations ++ n.children.flatMap violations := by
  rw [violations, nodes_eq, List.flatMap_cons, List.flatMap_assoc]
  rfl

theorem violations_of_childless {n : Node} (h : n.children = []) :
    n.violations = n.ownViolations := by
  rw [violations_eq, h, List.flatMap_nil, List.append_nil]

theorem lateStarts_eq (length : Nat) (n : Node) :
    n.lateStarts length =
      (n.spans.flatMap fun s =>
        breach (length ≤ s.start) (.badSpan n.kind s (.beyondSource length))) ++
      n.children.flatMap (lateStarts length) := by
  rw [lateStarts, nodes_eq, List.flatMap_cons, List.flatMap_assoc]
  rfl

/-! ## The checks report the first -/

theorem requireNonempty_eq_firstOf (k : Kind) (s : Span) :
    requireNonempty k s = firstOf (emptySpan k s) :=
  requireSpan_eq_firstOf (by simp) k s _

theorem requireAfter_eq_firstOf (before : Option Nat) (c : Node) :
    requireAfter before c.kind c.span = firstOf (before.toList.flatMap (overlap · c)) := by
  cases before with
  | none => rfl
  | some stop =>
    rw [requireAfter, requireSpan_eq_firstOf (p := c.span.start < stop) (by simp)]
    simp [overlap]

theorem checkSiblings_eq_firstOf (k : Kind) (outer : Span) (before : Option Nat)
    (ns : List Node) :
    checkSiblings k outer before ns = firstOf (siblingViolations k outer before ns) := by
  induction ns generalizing before with
  | nil => rfl
  | cons n ns ih =>
    rw [checkSiblings, siblingViolations, firstOf_append, firstOf_append, firstOf_append,
      requireNonempty_eq_firstOf, requireSpan_eq_firstOf (p := outer.encloses n.span = false)
        Iff.rfl, requireAfter_eq_firstOf, ih]
    simp only [bind_assoc]
    rfl

theorem checkPrograms_eq_firstOf (k : GroupKind) (s : Span) (ps : List Node) :
    checkPrograms k s ps = firstOf (extraPrograms k s ps) := by
  have hcondition : (decide (k = .command) && decide (1 < ps.countP isProgram)) = true ↔
      k = .command ∧ 2 ≤ ps.countP isProgram := by
    simp [Nat.succ_le_iff]
  simp only [checkPrograms, extraPrograms, breach]
  by_cases h : k = .command ∧ 2 ≤ ps.countP isProgram
  · rw [if_pos (hcondition.mpr h), if_pos h]
    rfl
  · rw [if_neg (mt hcondition.mp h), if_neg h]
    rfl

theorem checkGroupable_eq_firstOf (s : Span) (os : List Node) :
    checkGroupable s os = firstOf (ungroupable s os) := by
  rw [checkGroupable, ungroupable]
  cases os.find? fun o => !o.isOption with
  | none => rfl
  | some o => rfl

theorem checkContiguous_eq_firstOf (os : List Node) :
    checkContiguous os = firstOf (gaps os) := by
  induction os with
  | nil => rfl
  | cons a os ih =>
    cases os with
    | nil => rfl
    | cons b os =>
      rw [checkContiguous, gaps, firstOf_append, ih,
        requireSpan_eq_firstOf (p := b.span.start ≠ a.span.stop) (by simp)]
      rfl

theorem checkPart_eq_firstOf (outer part : Span) :
    checkPart outer part = firstOf (partViolations outer part) := by
  rw [checkPart, partViolations, firstOf_append, requireNonempty_eq_firstOf,
    requireSpan_eq_firstOf (p := outer.encloses part = false) Iff.rfl]

theorem checkBound_eq_firstOf (o : BoundFlag) :
    checkBound o = firstOf (boundViolations o) := by
  rw [checkBound, boundViolations, firstOf_append, firstOf_append, checkPart_eq_firstOf,
    checkPart_eq_firstOf,
    requireSpan_eq_firstOf (p := o.argument.span.start < o.option.span.stop) (by simp),
    bind_assoc]

theorem checkRedirect_eq_firstOf (r : Redirect) :
    checkRedirect r = firstOf (outputViolations r) := by
  rw [checkRedirect, outputViolations]
  cases r.output with
  | none => rfl
  | some w =>
    simp only [Option.toList_some, List.flatMap_singleton]
    rw [firstOf_append, requireNonempty_eq_firstOf,
      requireSpan_eq_firstOf (p := w.span.start ≤ r.span.start) (by simp)]

theorem checkEach_eq_firstOf {ns : List Node} (h : ∀ n ∈ ns, n.check = firstOf n.violations) :
    checkEach ns = firstOf (ns.flatMap violations) := by
  induction ns with
  | nil => rfl
  | cons n ns ih =>
    obtain ⟨hn, hns⟩ := List.forall_mem_cons.mp h
    rw [checkEach, hn, ih hns, List.flatMap_cons, firstOf_append]

/-- Nothing is wrong below a sticky word of which nothing is wrong itself: that its options
have offsets has been asked of them as siblings. -/
theorem violations_eq_nil_of_sticky {s : Span} {w : String} {os : List Node}
    (h : (sticky s w os).ownViolations = []) : os.flatMap violations = [] := by
  have hown : firstOf (sticky s w os).ownViolations = .ok () := by rw [h]; rfl
  rw [ownViolations, innerViolations] at hown
  simp only [firstOf_append, andThen_eq_ok_iff, ← checkGroupable_eq_firstOf,
    ← checkSiblings_eq_firstOf, checkGroupable_eq_ok_iff, checkSiblings_eq_ok_iff] at hown
  obtain ⟨-, ⟨hopt, hfits, -⟩, -⟩ := hown
  rw [List.flatMap_eq_nil_iff]
  intro o ho
  have hisOption := hopt o ho
  have hnonempty := (hfits o ho).nonempty
  cases o with
  | option f =>
    rw [violations_of_childless rfl, ownViolations, innerViolations, List.append_nil]
    exact breach_of_not (Nat.not_le.mpr hnonempty)
  | _ => simp [isOption] at hisOption

/-- The check of a tree reports the first violation of the tree. -/
theorem check_eq_firstOf (n : Node) : n.check = firstOf n.violations := by
  induction n with
  | sticky s w os =>
    rw [violations_eq, children_sticky, firstOf_append_left violations_eq_nil_of_sticky,
      ownViolations, innerViolations, check, requireNonempty_eq_firstOf,
      checkGroupable_eq_firstOf, checkSiblings_eq_firstOf, checkContiguous_eq_firstOf]
    simp only [firstOf_append, bind_assoc]
    rfl
  | group k s ps ih =>
    rw [violations_eq, children_group, ownViolations, innerViolations, check,
      requireNonempty_eq_firstOf, checkSiblings_eq_firstOf, checkPrograms_eq_firstOf,
      checkEach_eq_firstOf ih]
    simp only [firstOf_append, bind_assoc]
    rfl
  | optionWithArg o =>
    rw [violations_of_childless rfl, ownViolations, innerViolations, check,
      requireNonempty_eq_firstOf,
      checkBound_eq_firstOf, firstOf_append]
    rfl
  | redirect r =>
    rw [violations_of_childless rfl, ownViolations, innerViolations, check,
      requireNonempty_eq_firstOf,
      checkRedirect_eq_firstOf, firstOf_append]
    rfl
  | _ =>
    rw [violations_of_childless rfl, ownViolations, innerViolations, check,
      requireNonempty_eq_firstOf, List.append_nil]
    rfl

theorem requireStart_eq_firstOf (length : Nat) (k : Kind) (s : Span) :
    requireStart length k s =
      firstOf (breach (length ≤ s.start) (.badSpan k s (.beyondSource length))) :=
  requireSpan_eq_firstOf (by simp) k s _

theorem requireOutputStart_eq_firstOf (length : Nat) (r : Redirect) :
    requireOutputStart length r =
      firstOf ((r.output.toList.map Word.span).flatMap fun s =>
        breach (length ≤ s.start) (.badSpan .redirect s (.beyondSource length))) := by
  rw [requireOutputStart]
  cases r.output with
  | none => rfl
  | some w => simp [requireStart_eq_firstOf]

theorem checkStartsEach_eq_firstOf {length : Nat} {ns : List Node}
    (h : ∀ n ∈ ns, n.checkStarts length = firstOf (n.lateStarts length)) :
    checkStartsEach length ns = firstOf (ns.flatMap (lateStarts length)) := by
  induction ns with
  | nil => rfl
  | cons n ns ih =>
    obtain ⟨hn, hns⟩ := List.forall_mem_cons.mp h
    rw [checkStartsEach, hn, ih hns, List.flatMap_cons, firstOf_append]

/-- The check of the starts reports the first span that starts outside the source. -/
theorem checkStarts_eq_firstOf (length : Nat) (n : Node) :
    n.checkStarts length = firstOf (n.lateStarts length) := by
  induction n with
  | sticky s w os ih =>
    rw [lateStarts_eq, children_sticky, firstOf_append, checkStarts, requireStart_eq_firstOf,
      checkStartsEach_eq_firstOf ih]
    simp [spans, kind, span]
  | group k s ps ih =>
    rw [lateStarts_eq, children_group, firstOf_append, checkStarts, requireStart_eq_firstOf,
      checkStartsEach_eq_firstOf ih]
    simp [spans, kind, span]
  | optionWithArg o =>
    rw [lateStarts_eq, checkStarts]
    simp [requireStart_eq_firstOf, spans, kind, children, children?, firstOf_append]
  | redirect r =>
    rw [lateStarts_eq, checkStarts, requireStart_eq_firstOf, requireOutputStart_eq_firstOf,
      spans, List.flatMap_cons, ← firstOf_append]
    simp [kind, children, children?]
  | _ =>
    rw [lateStarts_eq, checkStarts, requireStart_eq_firstOf]
    simp [spans, kind, span, children, children?]

/-! ## What is reported is true -/

/-- `n.Breaks v message` holds when `v` is right about the node `n`, its embedded parts or
the nodes directly below it, and the message says so. -/
inductive Breaks (n : Node) : Violation → String → Prop where
  /-- The node or a part embedded in it has a span without an offset. -/
  | empty {s : Span} (mem : s ∈ n.spans) (bad : s.stop ≤ s.start) :
    Breaks n (.badSpan n.kind s .emptyOrReversed)
      (spanMessage n.kind s "range is empty or reversed")
  /-- A child is not within the node. -/
  | outside {c : Node} (mem : c ∈ n.children)
      (bad : c.span.start < n.span.start ∨ n.span.stop < c.span.stop) :
    Breaks n (.badSpan c.kind c.span (.outsideParent n.kind n.span))
      (spanMessage c.kind c.span
        ("lies outside its parent " ++ n.kind.name ++ " " ++ interval n.span))
  /-- A child starts before the child right before it has ended. -/
  | overlaps {a b : Node} (adjacent : [a, b] <:+: n.children)
      (bad : b.span.start < a.span.stop) :
    Breaks n (.badSpan b.kind b.span (.overlapsSibling a.span.stop))
      (spanMessage b.kind b.span
        ("overlaps or precedes the previous sibling ending at " ++ toString a.span.stop))
  /-- A grouped option does not start where the option right before it has ended. -/
  | apart {s : Span} {w : String} {os : List Node} {a b : Node} (isSticky : n = sticky s w os)
      (adjacent : [a, b] <:+: os) (bad : b.span.start ≠ a.span.stop) :
    Breaks n (.badSpan b.kind b.span (.notContiguous a.span.stop))
      (spanMessage b.kind b.span
        ("is not contiguous with the grouped option ending at " ++ toString a.span.stop))
  /-- A part embedded in an option with a value is not within the node. -/
  | partOutside {o : BoundFlag} {s : Span} (isBound : n = optionWithArg o)
      (mem : s = o.option.span ∨ s = o.argument.span)
      (bad : s.start < o.span.start ∨ o.span.stop < s.stop) :
    Breaks n (.badSpan .optionWithArg s .partOutsideNode)
      (spanMessage .optionWithArg s "embedded part lies outside the node")
  /-- The value starts before the option has ended. -/
  | argumentFirst {o : BoundFlag} (isBound : n = optionWithArg o)
      (bad : o.argument.span.start < o.option.span.stop) :
    Breaks n (.badSpan .optionWithArg o.argument.span .argumentBeforeOption)
      (spanMessage .optionWithArg o.argument.span "argument starts before the option ends")
  /-- The output word does not start after the redirect. -/
  | outputFirst {r : Redirect} {w : Word} (isRedirect : n = redirect r) (mem : r.output = some w)
      (bad : w.span.start ≤ r.span.start) :
    Breaks n (.badSpan .redirect w.span .outputBeforeOperator)
      (spanMessage .redirect w.span "output word must follow the redirect operator")
  /-- A command has more than one program among its parts. -/
  | manyPrograms {s : Span} {ps : List Node} (isCommand : n = group .command s ps)
      (bad : 2 ≤ ps.countP isProgram) :
    Breaks n (.badContent .command s (.manyPrograms (ps.countP isProgram)))
      (contentMessage .command s ("has " ++ toString (ps.countP isProgram) ++ " program nodes"))
  /-- A sticky word groups a node that is no option, `c` being the first. -/
  | ungroupable {s : Span} {w : String} {os : List Node} {c : Node} (isSticky : n = sticky s w os)
      (first : os.find? (fun o => !o.isOption) = some c) :
    Breaks n (.badContent .stickyOption s (.ungroupable c.kind))
      (contentMessage .stickyOption s
        ("groups a " ++ c.kind.name ++ " node; only options may be grouped"))

theorem exists_adjacent_cons_iff {P : Node → Node → Prop} {n : Node} {ns : List Node} :
    (∃ a b, [a, b] <:+: n :: ns ∧ P a b) ↔
      (∃ b ∈ ns.head?, P n b) ∨ ∃ a b, [a, b] <:+: ns ∧ P a b := by
  constructor
  · rintro ⟨a, b, h, hab⟩
    rcases List.infix_cons_iff.mp h with h | h
    · obtain ⟨rfl, ⟨rest, rfl⟩⟩ := List.cons_prefix_cons.mp h
      exact .inl ⟨b, rfl, hab⟩
    · exact .inr ⟨a, b, h, hab⟩
  · rintro (⟨b, hb, hab⟩ | ⟨a, b, h, hab⟩)
    · obtain ⟨rest, rfl⟩ := List.head?_eq_some_iff.mp hb
      exact ⟨n, b, (List.prefix_append [n, b] rest).isInfix, hab⟩
    · exact ⟨a, b, List.infix_cons h, hab⟩

theorem mem_gaps_iff {v : Violation} {os : List Node} :
    v ∈ gaps os ↔ ∃ a b, [a, b] <:+: os ∧ v ∈ gap a.span.stop b := by
  induction os with
  | nil => simp [gaps]
  | cons a os ih =>
    rw [exists_adjacent_cons_iff, ← ih]
    cases os with
    | nil => simp [gaps]
    | cons b os => simp [gaps]

theorem mem_siblingViolations_iff {v : Violation} {k : Kind} {outer : Span}
    {before : Option Nat} {ns : List Node} :
    v ∈ siblingViolations k outer before ns ↔
      (∃ c ∈ ns, v ∈ emptySpan c.kind c.span) ∨ (∃ c ∈ ns, v ∈ escape k outer c) ∨
        (∃ stop ∈ before, ∃ c ∈ ns.head?, v ∈ overlap stop c) ∨
        ∃ a b, [a, b] <:+: ns ∧ v ∈ overlap a.span.stop b := by
  induction ns generalizing before with
  | nil => simp [siblingViolations]
  | cons n ns ih =>
    rw [exists_adjacent_cons_iff]
    simp only [siblingViolations, List.mem_append, List.mem_flatMap, Option.mem_toList, ih,
      List.exists_mem_cons_iff, List.head?_cons, Option.mem_def, Option.some.injEq,
      exists_eq_left']
    refine iff_of_eq ?_
    ac_rfl

/-- What is listed of siblings is broken by one of them or by their parent. -/
theorem breaks_of_mem_siblingViolations {n : Node} {v : Violation}
    (h : v ∈ siblingViolations n.kind n.span none n.children) :
    n.Breaks v v.message ∨ ∃ c ∈ n.children, c.Breaks v v.message := by
  rcases mem_siblingViolations_iff.mp h with
    ⟨c, hc, hv⟩ | ⟨c, hc, hv⟩ | ⟨stop, hstop, -⟩ | ⟨a, b, hab, hv⟩
  · obtain ⟨hbad, rfl⟩ := mem_breach.mp hv
    exact .inr ⟨c, hc, .empty c.span_mem_spans hbad⟩
  · obtain ⟨hbad, rfl⟩ := mem_breach.mp hv
    rw [Span.encloses_eq_false_iff] at hbad
    exact .inl (.outside hc hbad)
  · cases hstop
  · obtain ⟨hbad, rfl⟩ := mem_breach.mp hv
    exact .inl (.overlaps hab hbad)

theorem breaks_of_mem_partViolations {o : BoundFlag} {part : Span} {v : Violation}
    (hpart : part = o.option.span ∨ part = o.argument.span)
    (h : v ∈ partViolations o.span part) : (optionWithArg o).Breaks v v.message := by
  rcases List.mem_append.mp h with h | h
  · obtain ⟨hbad, rfl⟩ := mem_breach.mp h
    have hmem : part ∈ (optionWithArg o).spans := by simp [spans, hpart]
    exact .empty (n := optionWithArg o) hmem hbad
  · obtain ⟨hbad, rfl⟩ := mem_breach.mp h
    rw [Span.encloses_eq_false_iff] at hbad
    exact .partOutside rfl hpart hbad

/-- What is listed of a node is broken by it or by one of its children. -/
theorem breaks_of_mem_ownViolations {n : Node} {v : Violation} (h : v ∈ n.ownViolations) :
    n.Breaks v v.message ∨ ∃ c ∈ n.children, c.Breaks v v.message := by
  rw [ownViolations, List.mem_append] at h
  rcases h with h | h
  · obtain ⟨hbad, rfl⟩ := mem_breach.mp h
    exact .inl (.empty n.span_mem_spans hbad)
  cases n with
  | sticky s w os =>
    simp only [innerViolations, List.mem_append] at h
    rcases h with (h | h) | h
    · obtain ⟨c, hc, rfl⟩ := List.mem_map.mp h
      exact .inl (.ungroupable rfl (Option.mem_toList.mp hc))
    · exact breaks_of_mem_siblingViolations h
    · obtain ⟨a, b, hab, hv⟩ := mem_gaps_iff.mp h
      obtain ⟨hbad, rfl⟩ := mem_breach.mp hv
      exact .inl (.apart rfl hab hbad)
  | group k s ps =>
    simp only [innerViolations, List.mem_append] at h
    rcases h with h | h
    · exact breaks_of_mem_siblingViolations h
    · obtain ⟨⟨rfl, hbad⟩, rfl⟩ := mem_breach.mp h
      exact .inl (.manyPrograms rfl hbad)
  | optionWithArg o =>
    simp only [innerViolations, boundViolations, List.mem_append] at h
    rcases h with (h | h) | h
    · exact .inl (breaks_of_mem_partViolations (.inl rfl) h)
    · exact .inl (breaks_of_mem_partViolations (.inr rfl) h)
    · obtain ⟨hbad, rfl⟩ := mem_breach.mp h
      exact .inl (.argumentFirst rfl hbad)
  | redirect r =>
    obtain ⟨w, hw, h⟩ := List.mem_flatMap.mp h
    rw [Option.mem_toList] at hw
    rcases List.mem_append.mp h with h | h
    · obtain ⟨hbad, rfl⟩ := mem_breach.mp h
      have hmem : w.span ∈ (redirect r).spans := by simp [spans, Option.mem_def.mp hw]
      exact .inl (.empty (n := redirect r) hmem hbad)
    · obtain ⟨hbad, rfl⟩ := mem_breach.mp h
      exact .inl (.outputFirst rfl hw hbad)
  | _ => cases h

/-! ### What is true is listed -/

theorem mem_ownViolations_of_inner {n : Node} {v : Violation} (h : v ∈ n.innerViolations) :
    v ∈ n.ownViolations :=
  List.mem_append_right _ h

theorem mem_innerViolations_of_siblings {n : Node} {v : Violation}
    (h : v ∈ siblingViolations n.kind n.span none n.children) : v ∈ n.innerViolations := by
  cases n with
  | sticky s w os => exact List.mem_append_left _ (List.mem_append_right _ h)
  | group k s ps => exact List.mem_append_left _ h
  | _ => cases h

theorem mem_innerViolations_of_part {o : BoundFlag} {part : Span} {v : Violation}
    (hpart : part = o.option.span ∨ part = o.argument.span)
    (h : v ∈ partViolations o.span part) : v ∈ (optionWithArg o).innerViolations := by
  refine List.mem_append_left _ (List.mem_append.mpr ?_)
  rcases hpart with rfl | rfl
  · exact .inl h
  · exact .inr h

/-- A span of a node without an offset is listed of the node. -/
theorem mem_ownViolations_of_emptySpan {n : Node} {s : Span} (hs : s ∈ n.spans) {v : Violation}
    (hv : v ∈ emptySpan n.kind s) : v ∈ n.ownViolations := by
  -- only two kinds of nodes have embedded parts
  cases n with
  | optionWithArg o =>
    rcases List.mem_cons.mp hs with rfl | hs
    · exact List.mem_append_left _ hv
    · have hpart : s = o.option.span ∨ s = o.argument.span := by simpa using hs
      exact mem_ownViolations_of_inner
        (mem_innerViolations_of_part hpart (List.mem_append_left _ hv))
  | redirect r =>
    rcases List.mem_cons.mp hs with rfl | hs
    · exact List.mem_append_left _ hv
    · obtain ⟨w, hw, rfl⟩ := List.mem_map.mp hs
      exact mem_ownViolations_of_inner
        (List.mem_flatMap.mpr ⟨w, hw, List.mem_append_left _ hv⟩)
  | _ =>
    obtain rfl := List.mem_singleton.mp hs
    exact List.mem_append_left _ hv

/-- What a node breaks is listed of it. -/
theorem mem_ownViolations_of_breaks {n : Node} {v : Violation} {message : String}
    (h : n.Breaks v message) :
    v ∈ n.ownViolations := by
  cases h with
  | empty hs bad => exact mem_ownViolations_of_emptySpan hs (mem_breach_self bad)
  | @outside c hc bad =>
    have hv : _ ∈ escape n.kind n.span c :=
      mem_breach_self (Span.encloses_eq_false_iff.mpr bad)
    exact mem_ownViolations_of_inner (mem_innerViolations_of_siblings
      (mem_siblingViolations_iff.mpr (.inr (.inl ⟨c, hc, hv⟩))))
  | @overlaps a b hab bad =>
    have hv : _ ∈ overlap a.span.stop b := mem_breach_self bad
    exact mem_ownViolations_of_inner (mem_innerViolations_of_siblings
      (mem_siblingViolations_iff.mpr (.inr (.inr (.inr ⟨a, b, hab, hv⟩)))))
  | @apart s w os a b hn hab bad =>
    subst hn
    have hv : _ ∈ gap a.span.stop b := mem_breach_self bad
    exact mem_ownViolations_of_inner (List.mem_append_right _ (mem_gaps_iff.mpr ⟨a, b, hab, hv⟩))
  | @partOutside o s hn hs bad =>
    subst hn
    have hv : _ ∈ partViolations o.span s :=
      List.mem_append_right _ (mem_breach_self (Span.encloses_eq_false_iff.mpr bad))
    exact mem_ownViolations_of_inner (mem_innerViolations_of_part hs hv)
  | @argumentFirst o hn bad =>
    subst hn
    exact mem_ownViolations_of_inner (List.mem_append_right _ (mem_breach_self bad))
  | @outputFirst r w hn hw bad =>
    subst hn
    exact mem_ownViolations_of_inner (List.mem_flatMap.mpr
      ⟨w, Option.mem_toList.mpr hw, List.mem_append_right _ (mem_breach_self bad)⟩)
  | manyPrograms hn bad =>
    subst hn
    exact mem_ownViolations_of_inner
      (List.mem_append_right _ (mem_breach_self ⟨rfl, bad⟩))
  | @ungroupable s w os c hn first =>
    subst hn
    have hv : .badContent .stickyOption s (.ungroupable c.kind) ∈ Node.ungroupable s os :=
      List.mem_map.mpr ⟨c, Option.mem_toList.mpr first, rfl⟩
    exact mem_ownViolations_of_inner
      (List.mem_append_left _ (List.mem_append_left _ hv))

/-- The violations of a tree are what its nodes break. -/
theorem mem_violations_iff {n : Node} {v : Violation} :
    v ∈ n.violations ↔ ∃ path m, n.descend? path = some m ∧ m.Breaks v v.message := by
  constructor
  · intro h
    obtain ⟨m, hm, hv⟩ := List.mem_flatMap.mp h
    rcases breaks_of_mem_ownViolations hv with hbreaks | ⟨c, hc, hbreaks⟩
    · obtain ⟨path, hpath⟩ := mem_nodes_iff.mp hm
      exact ⟨path, m, hpath, hbreaks⟩
    · obtain ⟨path, hpath⟩ := mem_nodes_iff.mp (mem_nodes_of_mem_children hm hc)
      exact ⟨path, c, hpath, hbreaks⟩
  · rintro ⟨path, m, hpath, hbreaks⟩
    have hm := mem_nodes_iff.mpr ⟨path, hpath⟩
    exact List.mem_flatMap.mpr ⟨m, hm, mem_ownViolations_of_breaks hbreaks⟩

/-- A span at fault is that of a node of the tree, of the kind that is named, or of a part
embedded in such a node. -/
theorem exists_node_of_badSpan {n : Node} {k : Kind} {s : Span} {f : SpanFault}
    (h : .badSpan k s f ∈ n.violations) :
    ∃ path m, n.descend? path = some m ∧ m.kind = k ∧ s ∈ m.spans := by
  obtain ⟨path, m, hpath, hbreaks⟩ := mem_violations_iff.mp h
  have hm := mem_nodes_iff.mpr ⟨path, hpath⟩
  -- a rule about children is broken by the child that is named
  have below : ∀ c ∈ m.children, ∃ path m', n.descend? path = some m' ∧ m'.kind = c.kind ∧
      c.span ∈ m'.spans := by
    intro c hc
    obtain ⟨path, hpath⟩ := mem_nodes_iff.mp (mem_nodes_of_mem_children hm hc)
    exact ⟨path, c, hpath, rfl, c.span_mem_spans⟩
  cases hbreaks with
  | empty hs bad => exact ⟨path, m, hpath, rfl, hs⟩
  | outside hc bad => exact below _ hc
  | overlaps hab bad => exact below _ (hab.subset (by simp))
  | apart hn hab bad =>
    subst hn
    exact below _ (hab.subset (by simp))
  | partOutside hn hs bad =>
    subst hn
    exact ⟨path, _, hpath, rfl, by simpa [spans] using .inr hs⟩
  | argumentFirst hn bad =>
    subst hn
    exact ⟨path, _, hpath, rfl, by simp [spans]⟩
  | outputFirst hn hw bad =>
    subst hn
    exact ⟨path, _, hpath, rfl, by simp [spans, hw]⟩

/-- The late starts of a tree are those of the spans that its nodes speak of. -/
theorem mem_lateStarts_iff {length : Nat} {n : Node} {v : Violation} :
    v ∈ n.lateStarts length ↔ ∃ path m, n.descend? path = some m ∧
      ∃ s ∈ m.spans, length ≤ s.start ∧ v = .badSpan m.kind s (.beyondSource length) ∧
        v.message = spanMessage m.kind s
          ("starts beyond the " ++ toString length ++ "-character source") := by
  simp only [lateStarts, List.mem_flatMap, mem_nodes_iff, mem_breach]
  constructor
  · rintro ⟨m, ⟨path, hpath⟩, s, hs, hlate, rfl⟩
    exact ⟨path, m, hpath, s, hs, hlate, rfl, rfl⟩
  · rintro ⟨path, m, hpath, s, hs, hlate, hv, -⟩
    exact ⟨m, ⟨path, hpath⟩, s, hs, hlate, hv⟩

/-- Reading with a check refuses a tree for the first of its violations. -/
theorem readChecked_eq_invalid_iff {text : String} {v : Violation} :
    readChecked text = .error (.invalid v) ↔
      ∃ n, read text = .ok n ∧ n.violations.head? = some v := by
  simp only [← firstOf_eq_error_iff, ← check_eq_firstOf, readChecked, bind_eq_error_iff,
    mapError_eq_ok_iff, mapError_eq_error_iff]
  simp [pure, Except.pure]

end Node

namespace Document

/-- What is wrong with a document, in order: with the tree by itself, then with where its
spans start in the source. -/
def violations (d : Document) : List Violation :=
  d.tree.violations ++ d.tree.lateStarts d.source.length

theorem check_eq_firstOf (d : Document) : d.check = firstOf d.violations := by
  rw [check, violations, firstOf_append, Node.check_eq_firstOf, Node.checkStarts_eq_firstOf]

/-- Reading with a check refuses a document for the first of its violations. -/
theorem readChecked_eq_invalid_iff {text : String} {v : Violation} :
    readChecked text = .error (.invalid v) ↔
      ∃ d, read text = .ok d ∧ d.violations.head? = some v := by
  simp only [← firstOf_eq_error_iff, ← check_eq_firstOf, readChecked, bind_eq_error_iff,
    mapError_eq_ok_iff, mapError_eq_error_iff]
  simp [pure, Except.pure]

end Document

/-- What is reported of a tree or of a document that can be read is the first of its
violations, and these are true: each is broken by a node of the tree, and its message states
the kind, the span and the facts of the rule that the node breaks. A span at fault is that
of a node of the named kind or of a part embedded in it. The message is what is shown of the
error, and no two violations have the same. -/
theorem reports_first_violation :
    (∀ text v, Node.readChecked text = .error (.invalid v) ↔
      ∃ n, Node.read text = .ok n ∧ n.violations.head? = some v) ∧
    (∀ text v, Document.readChecked text = .error (.invalid v) ↔
      ∃ d, Document.read text = .ok d ∧
        (d.tree.violations ++ d.tree.lateStarts d.source.length).head? = some v) ∧
    (∀ n : Node,
      (∀ v, n.check = .error v ↔ n.violations.head? = some v) ∧
      (∀ v, v ∈ n.violations ↔ ∃ path m, n.descend? path = some m ∧ m.Breaks v v.message) ∧
      (∀ k s f, .badSpan k s f ∈ n.violations →
        ∃ path m, n.descend? path = some m ∧ m.kind = k ∧ s ∈ m.spans) ∧
      ∀ length v, v ∈ n.lateStarts length ↔ ∃ path m, n.descend? path = some m ∧
        ∃ s ∈ m.spans, length ≤ s.start ∧ v = .badSpan m.kind s (.beyondSource length) ∧
          v.message = spanMessage m.kind s
            ("starts beyond the " ++ toString length ++ "-character source")) ∧
    ∀ v w : Violation, (InputError.invalid v).message = v.message ∧
      (v.message = w.message → v = w) := by
  refine ⟨fun _ _ => Node.readChecked_eq_invalid_iff,
    fun _ _ => Document.readChecked_eq_invalid_iff, fun n => ⟨fun v => ?_, fun _ => ?_, ?_, ?_⟩,
    fun v w => ⟨rfl, Violation.message_injective⟩⟩
  · rw [Node.check_eq_firstOf, firstOf_eq_error_iff]
  · exact Node.mem_violations_iff
  · exact fun _ _ _ => Node.exists_node_of_badSpan
  · exact fun _ _ => Node.mem_lateStarts_iff

/-- A command of two programs that overlap. It breaks two rules. -/
def twoPrograms : Node :=
  .group .command ⟨0, 5⟩
    [.program ⟨⟨0, 3⟩, "foo", "foo", none⟩, .program ⟨⟨2, 5⟩, "obx", "obx", none⟩]

/-- The overlap is reported. The number of programs is listed after it. -/
theorem reports_first_violation_twoPrograms :
    twoPrograms.violations =
      [.badSpan .program ⟨2, 5⟩ (.overlapsSibling 3),
        .badContent .command ⟨0, 5⟩ (.manyPrograms 2)] ∧
      twoPrograms.check = .error (.badSpan .program ⟨2, 5⟩ (.overlapsSibling 3)) ∧
      twoPrograms.violations.map Violation.message =
        ["invalid range [2, 5) on program node: " ++
            "overlaps or precedes the previous sibling ending at 3",
          "invalid command node at [0, 5): has 2 program nodes"] ∧
      ∃ path m, twoPrograms.descend? path = some m ∧ m.kind = .program ∧ ⟨2, 5⟩ ∈ m.spans := by
  obtain ⟨-, -, htrees, -⟩ := reports_first_violation
  obtain ⟨hfirst, -, hnamed, -⟩ := htrees twoPrograms
  have hlist : twoPrograms.violations =
      [.badSpan .program ⟨2, 5⟩ (.overlapsSibling 3),
        .badContent .command ⟨0, 5⟩ (.manyPrograms 2)] := by decide
  refine ⟨hlist, (hfirst _).mpr (by rw [hlist]; rfl), by rw [hlist]; decide,
    hnamed _ _ (.overlapsSibling 3) ?_⟩
  rw [hlist]
  exact List.mem_cons_self

end ShellGloss
