import Mathlib.Data.List.Chain
import ShellGloss.Document
import ShellGloss.Proofs.Outcomes

/-!
# Well-formed trees

What the checks of a tree accept, said as properties of the tree and without an
order of work: `Node.WellFormed` for a tree by itself, `Node.StartsBelow` for a
tree and the length of its source. A check that passes is shown to be the same
as its property, one lemma for each check (`check…_eq_ok_iff`).

The checks compare a sibling with the one before it only. That the properties
speak of any two siblings is `checkSiblings_eq_ok_iff`, whose induction carries
where the last sibling ended.
-/

namespace ShellGloss

/-- The span holds an offset and lies in the span `outer`. -/
structure Span.FitsIn (s outer : Span) : Prop where
  nonempty : s.start < s.stop
  start_le : outer.start ≤ s.start
  stop_le : s.stop ≤ outer.stop

theorem Span.FitsIn.trans {s t u : Span} (h : s.FitsIn t) (h' : t.FitsIn u) : s.FitsIn u :=
  ⟨h.nonempty, h'.start_le.trans h.start_le, h.stop_le.trans h'.stop_le⟩

/-- The parts of an option with a value fit in the node, the option first. -/
structure BoundFlag.PartsFit (o : BoundFlag) : Prop where
  option : o.option.span.FitsIn o.span
  argument : o.argument.span.FitsIn o.span
  ordered : o.option.span.stop ≤ o.argument.span.start

/-- The output word of a redirect, if any, is not empty and starts after the redirect. -/
def Redirect.OutputFollows (r : Redirect) : Prop :=
  ∀ w ∈ r.output, w.span.start < w.span.stop ∧ r.span.start < w.span.start

namespace Node

/-! ## Rules -/

/-- A sticky word groups options only, which fit in it and follow one another
without a gap. -/
structure StickyRules (span : Span) (options : List Node) : Prop where
  isOption : ∀ o ∈ options, o.isOption = true
  fits : ∀ o ∈ options, o.span.FitsIn span
  contiguous : options.IsChain fun a b => b.span.start = a.span.stop

/-- Options without a gap between them are in order. -/
theorem StickyRules.ordered {span : Span} {options : List Node} (h : StickyRules span options) :
    options.Pairwise fun a b => a.span.stop ≤ b.span.start := by
  obtain ⟨-, hfits, hchain⟩ := h
  induction hchain with
  | nil => exact .nil
  | singleton a => exact List.pairwise_singleton _ a
  | cons_cons hab hrest ih =>
    rename_i a b rest
    have htail := ih fun o ho => hfits o (List.mem_cons_of_mem a ho)
    refine List.pairwise_cons.mpr ⟨fun c hc => ?_, htail⟩
    rcases List.mem_cons.mp hc with rfl | hc
    · omega
    · -- b is not empty, so what comes after b comes after a
      have hb := (hfits b (by simp)).nonempty
      have hbc := (List.pairwise_cons.mp htail).1 c hc
      omega

/-- The parts of a group fit in it, any part ends before every later one starts,
and a command has one program at most. -/
structure GroupRules (kind : GroupKind) (span : Span) (parts : List Node) : Prop where
  fits : ∀ p ∈ parts, p.span.FitsIn span
  ordered : parts.Pairwise fun a b => a.span.stop ≤ b.span.start
  programs : kind = .command → parts.countP isProgram ≤ 1

/-- The rules about what a node is made of. -/
def Rules : Node → Prop
  | optionWithArg o => o.PartsFit
  | redirect r => r.OutputFollows
  | sticky span _ options => StickyRules span options
  | group kind span parts => GroupRules kind span parts
  | program _ | subcommand _ | option _ | assignment _ | word .. => True

/-- A tree that breaks no rule: its span holds an offset, the rules about what it
is made of are kept, and every part is well-formed in turn. -/
inductive WellFormed : Node → Prop where
  | node {n : Node} (nonempty : n.span.start < n.span.stop) (rules : n.Rules)
      (parts : ∀ p ∈ n.parts?.getD [], WellFormed p) : WellFormed n

theorem wellFormed_iff {n : Node} :
    n.WellFormed ↔
      n.span.start < n.span.stop ∧ n.Rules ∧ ∀ p ∈ n.parts?.getD [], p.WellFormed := by
  constructor
  · rintro ⟨nonempty, rules, parts⟩
    exact ⟨nonempty, rules, parts⟩
  · rintro ⟨nonempty, rules, parts⟩
    exact .node nonempty rules parts

/-- The nodes below a well-formed node are well-formed. -/
theorem WellFormed.of_mem_children {n c : Node} (hn : n.WellFormed) (hc : c ∈ n.children) :
    c.WellFormed := by
  obtain ⟨-, hrules, hparts⟩ := hn
  cases n with
  | group k s ps => exact hparts c hc
  | sticky s w os =>
    have hfit := hrules.fits c hc
    have hoption := hrules.isOption c hc
    cases c with
    | option o => exact .node hfit.nonempty trivial (by simp [parts?])
    | _ => simp [isOption] at hoption
  | _ => simp [children, children?] at hc

/-- The spans that a node speaks of: its own and those of embedded parts. -/
def spans : Node → List Span
  | optionWithArg o => [o.span, o.option.span, o.argument.span]
  | redirect r => r.span :: r.output.toList.map Word.span
  | n => [n.span]

theorem span_mem_spans (n : Node) : n.span ∈ n.spans := by
  cases n <;> simp [span, spans]

/-- Every span in the tree, at any depth, starts inside a source of `length` characters. -/
def StartsBelow (length : Nat) (n : Node) : Prop :=
  ∀ path m, n.descend? path = some m → ∀ s ∈ m.spans, s.start < length

theorem startsBelow_iff {length : Nat} {n : Node} :
    n.StartsBelow length ↔
      (∀ s ∈ n.spans, s.start < length) ∧ ∀ c ∈ n.children, c.StartsBelow length :=
  forall_descend?_iff

end Node

/-! ## Passing a check -/

@[simp] theorem requireSpan_eq_ok_iff {c : Bool} {k : Kind} {s : Span} {f : SpanFault} :
    requireSpan c k s f = .ok () ↔ c = true := by
  cases c <;> simp [requireSpan]

@[simp] theorem requireNonempty_eq_ok_iff {k : Kind} {s : Span} :
    requireNonempty k s = .ok () ↔ s.start < s.stop := by
  simp [requireNonempty]

namespace Node

@[simp] theorem requireAfter_eq_ok_iff {before : Option Nat} {k : Kind} {s : Span} :
    requireAfter before k s = .ok () ↔ ∀ stop ∈ before, stop ≤ s.start := by
  cases before <;> simp [requireAfter]

/-- Siblings that pass fit in their parent, and each of them ends before every
later one starts. -/
theorem checkSiblings_eq_ok_iff {k : Kind} {outer : Span} {before : Option Nat} {ns : List Node} :
    checkSiblings k outer before ns = .ok () ↔
      (∀ n ∈ ns, n.span.FitsIn outer) ∧
        ns.Pairwise (fun a b => a.span.stop ≤ b.span.start) ∧
        ∀ stop ∈ before, ∀ n ∈ ns, stop ≤ n.span.start := by
  induction ns generalizing before with
  | nil => simp [checkSiblings]
  | cons n ns ih =>
    -- the end of n is what its later siblings are compared with from here on
    simp only [checkSiblings, andThen_eq_ok_iff, requireNonempty_eq_ok_iff,
      requireSpan_eq_ok_iff, Span.encloses_iff, requireAfter_eq_ok_iff, ih, List.forall_mem_cons,
      List.pairwise_cons, Option.mem_some_iff, forall_eq']
    constructor
    · rintro ⟨hne, ⟨hstart, hstop⟩, hbefore, hfits, hordered, hafter⟩
      refine ⟨⟨⟨hne, hstart, hstop⟩, hfits⟩, ⟨hafter, hordered⟩, ?_⟩
      intro stop hs
      have hn := hbefore stop hs
      refine ⟨hn, fun m hm => ?_⟩
      -- m starts after the end of n, and n holds an offset
      have hm := hafter m hm
      omega
    · rintro ⟨⟨hfit, hfits⟩, ⟨hafter, hordered⟩, hbefore⟩
      exact ⟨hfit.nonempty, ⟨hfit.start_le, hfit.stop_le⟩, fun stop hs => (hbefore stop hs).1,
        hfits, hordered, hafter⟩

@[simp] theorem checkPrograms_eq_ok_iff {k : GroupKind} {s : Span} {ps : List Node} :
    checkPrograms k s ps = .ok () ↔ (k = .command → ps.countP isProgram ≤ 1) := by
  simp only [checkPrograms]
  split
  · rename_i h
    simp only [Bool.and_eq_true, decide_eq_true_eq] at h
    simp only [reduceCtorEq, false_iff, h.1, forall_const]
    omega
  · rename_i h
    simp only [Bool.and_eq_true, decide_eq_true_eq, not_and, Nat.not_lt] at h
    simpa using h

@[simp] theorem checkGroupable_eq_ok_iff {s : Span} {os : List Node} :
    checkGroupable s os = .ok () ↔ ∀ o ∈ os, o.isOption = true := by
  rw [checkGroupable]
  split
  · rename_i o ho
    have hmem := List.mem_of_find?_eq_some ho
    have hnot := List.find?_some ho
    simp only [reduceCtorEq, false_iff]
    intro h
    simp [h o hmem] at hnot
  · rename_i ho
    simpa using ho

theorem checkContiguous_eq_ok_iff {os : List Node} :
    checkContiguous os = .ok () ↔ os.IsChain fun a b => b.span.start = a.span.stop := by
  induction os with
  | nil => simp [checkContiguous]
  | cons a os ih =>
    cases os with
    | nil => simp [checkContiguous]
    | cons b os =>
      simp only [checkContiguous, andThen_eq_ok_iff, requireSpan_eq_ok_iff,
        decide_eq_true_eq, ih, List.isChain_cons_cons]

theorem checkPart_eq_ok_iff {outer part : Span} :
    checkPart outer part = .ok () ↔ part.FitsIn outer := by
  simp only [checkPart, andThen_eq_ok_iff, requireNonempty_eq_ok_iff,
    requireSpan_eq_ok_iff, Span.encloses_iff]
  constructor
  · rintro ⟨hne, hstart, hstop⟩
    exact ⟨hne, hstart, hstop⟩
  · intro h
    exact ⟨h.nonempty, h.start_le, h.stop_le⟩

theorem checkBound_eq_ok_iff {o : BoundFlag} : checkBound o = .ok () ↔ o.PartsFit := by
  simp only [checkBound, andThen_eq_ok_iff, checkPart_eq_ok_iff, requireSpan_eq_ok_iff,
    decide_eq_true_eq]
  constructor
  · rintro ⟨hoption, hargument, hordered⟩
    exact ⟨hoption, hargument, hordered⟩
  · intro h
    exact ⟨h.option, h.argument, h.ordered⟩

theorem checkRedirect_eq_ok_iff {r : Redirect} : checkRedirect r = .ok () ↔ r.OutputFollows := by
  rw [checkRedirect, Redirect.OutputFollows]
  cases r.output with
  | none => simp
  | some w => simp [andThen_eq_ok_iff]

theorem checkEach_eq_ok_iff {ns : List Node} :
    checkEach ns = .ok () ↔ ∀ n ∈ ns, n.check = .ok () := by
  induction ns with
  | nil => simp [checkEach]
  | cons n ns ih => rw [checkEach, andThen_eq_ok_iff, ih, List.forall_mem_cons]

/-- A tree passes the check exactly when it is well-formed. -/
theorem check_eq_ok_iff {n : Node} : n.check = .ok () ↔ n.WellFormed := by
  induction n with
  | sticky s w os =>
    simp only [check, andThen_eq_ok_iff, requireNonempty_eq_ok_iff,
      checkGroupable_eq_ok_iff, checkSiblings_eq_ok_iff, checkContiguous_eq_ok_iff]
    constructor
    · rintro ⟨hne, hopt, ⟨hfits, -, -⟩, hchain⟩
      exact .node hne ⟨hopt, hfits, hchain⟩ (by simp [parts?])
    · -- options without a gap pass the check of their order as well
      rintro ⟨hne, hrules, -⟩
      exact ⟨hne, hrules.isOption, ⟨hrules.fits, hrules.ordered, by simp⟩, hrules.contiguous⟩
  | group k s ps ih =>
    simp only [check, andThen_eq_ok_iff, requireNonempty_eq_ok_iff,
      checkSiblings_eq_ok_iff, checkPrograms_eq_ok_iff, checkEach_eq_ok_iff]
    constructor
    · rintro ⟨hne, ⟨hfits, hordered, -⟩, hprograms, hparts⟩
      exact .node hne ⟨hfits, hordered, hprograms⟩ fun p hp => (ih p hp).mp (hparts p hp)
    · rintro ⟨hne, hrules, hparts⟩
      exact ⟨hne, ⟨hrules.fits, hrules.ordered, by simp⟩, hrules.programs,
        fun p hp => (ih p hp).mpr (hparts p hp)⟩
  | optionWithArg o =>
    rw [check, andThen_eq_ok_iff, requireNonempty_eq_ok_iff, checkBound_eq_ok_iff,
      wellFormed_iff]
    simp [span, Rules, parts?]
  | redirect r =>
    rw [check, andThen_eq_ok_iff, requireNonempty_eq_ok_iff, checkRedirect_eq_ok_iff,
      wellFormed_iff]
    simp [span, Rules, parts?]
  | _ =>
    rw [check, requireNonempty_eq_ok_iff, wellFormed_iff]
    simp [span, Rules, parts?]

/-! ## Starting inside the source -/

@[simp] theorem requireStart_eq_ok_iff {length : Nat} {k : Kind} {s : Span} :
    requireStart length k s = .ok () ↔ s.start < length := by
  simp [requireStart]

@[simp] theorem requireOutputStart_eq_ok_iff {length : Nat} {r : Redirect} :
    requireOutputStart length r = .ok () ↔ ∀ w ∈ r.output, w.span.start < length := by
  rw [requireOutputStart]
  cases r.output <;> simp

theorem checkStartsEach_eq_ok_iff {length : Nat} {ns : List Node} :
    checkStartsEach length ns = .ok () ↔ ∀ n ∈ ns, n.checkStarts length = .ok () := by
  induction ns with
  | nil => simp [checkStartsEach]
  | cons n ns ih => rw [checkStartsEach, andThen_eq_ok_iff, ih, List.forall_mem_cons]

/-- The starts of a tree pass exactly when every span in it starts inside the source. -/
theorem checkStarts_eq_ok_iff {length : Nat} {n : Node} :
    n.checkStarts length = .ok () ↔ n.StartsBelow length := by
  induction n with
  | sticky s w os ih =>
    rw [checkStarts, andThen_eq_ok_iff, checkStartsEach_eq_ok_iff, startsBelow_iff,
      children_sticky]
    simp only [requireStart_eq_ok_iff, spans, span, List.forall_mem_singleton]
    exact and_congr_right fun _ => forall₂_congr ih
  | group k s ps ih =>
    rw [checkStarts, andThen_eq_ok_iff, checkStartsEach_eq_ok_iff, startsBelow_iff,
      children_group]
    simp only [requireStart_eq_ok_iff, spans, span, List.forall_mem_singleton]
    exact and_congr_right fun _ => forall₂_congr ih
  | optionWithArg o =>
    rw [checkStarts, andThen_eq_ok_iff, andThen_eq_ok_iff, startsBelow_iff]
    simp [spans, children, children?]
  | redirect r =>
    rw [checkStarts, andThen_eq_ok_iff, startsBelow_iff]
    simp [spans, children, children?]
  | _ =>
    rw [checkStarts, requireStart_eq_ok_iff, startsBelow_iff]
    simp [spans, span, children, children?]

end Node

namespace Document

/-- A document passes exactly when its tree is well-formed and every span in the
tree starts inside the source. -/
theorem check_eq_ok_iff {d : Document} :
    d.check = .ok () ↔ d.tree.WellFormed ∧ d.tree.StartsBelow d.source.length := by
  rw [check, andThen_eq_ok_iff, Node.check_eq_ok_iff, Node.checkStarts_eq_ok_iff]

/-- Reading with checks yields the documents that reading yields and that pass. -/
theorem readChecked_eq_ok_iff {text : String} {d : Document} :
    readChecked text = .ok d ↔ read text = .ok d ∧ d.check = .ok () := by
  simp only [readChecked, bind_eq_ok_iff, mapError_eq_ok_iff]
  constructor
  · rintro ⟨d', hread, u, hcheck, h⟩
    obtain rfl : d' = d := Except.ok.inj h
    exact ⟨hread, hcheck⟩
  · rintro ⟨hread, hcheck⟩
    exact ⟨d, hread, (), hcheck, rfl⟩

end Document

/-- The check accepts the well-formed trees and no others. Reading with checks
accepts, of what can be read, the documents whose tree is well-formed and has
every span start inside the source, and no others. -/
theorem accepts_exactly_wellFormed :
    (∀ n : Node, n.check = .ok () ↔ n.WellFormed) ∧
    ∀ (text : String) (d : Document), Document.readChecked text = .ok d ↔
      Document.read text = .ok d ∧ d.tree.WellFormed ∧ d.tree.StartsBelow d.source.length := by
  refine ⟨fun _ => Node.check_eq_ok_iff, fun text d => ?_⟩
  rw [Document.readChecked_eq_ok_iff, Document.check_eq_ok_iff]

end ShellGloss
