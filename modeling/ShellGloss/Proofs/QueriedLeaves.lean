import Mathlib.Data.List.Flatten
import ShellGloss.Proofs.LeafOrder
import ShellGloss.Proofs.OptionQuestions

/-!
# Questions and leaves

A question walks the children of a node and goes into sticky words; the leaves of a tree
are had by walking into groups, and one level into sticky words. In a checked tree both
see the same nodes: what a question about a group yields is among the leaves of the group,
in their order. Where no part of the group is a group itself nothing else is there, so that
the leaves of a kind are what the question for that kind yields.

Both are facts about one child at a time, lifted to the children of a node
(`filter_sublist_leaves`, `filter_leaves_eq`).
-/

namespace ShellGloss.Node

variable {name : String} {k : Kind} {p : Node → Bool}

theorem isTerminal_of_isFlag {n : Node} (h : n.isFlag = true) : n.isTerminal = true := by
  cases n with
  | option o => rfl
  | optionWithArg o => rfl
  | _ => simp [isFlag] at h

theorem leaves_of_isSticky {g : Node} (h : g.isSticky = true) : g.leaves = g.children := by
  cases g with
  | sticky s w os => exact leaves_sticky s w os
  | _ => simp [isSticky] at h

/-- A node is a terminal, a sticky word or a group. -/
theorem isTerminal_or_isSticky {n : Node} (h : n.kind.isComposite = false) :
    n.isTerminal = true ∨ n.isSticky = true := by
  cases n with
  | sticky s w os => exact .inr rfl
  | group k s ps => simp [kind] at h
  | _ => exact .inl rfl

/-! ## Children and their leaves -/

/-- Terminals among some nodes stay, in their order, where all are replaced by their leaves. -/
theorem filter_sublist_leaves {ns : List Node}
    (h : ∀ n ∈ ns, p n = true → n.isTerminal = true) :
    (ns.filter p).Sublist (ns.flatMap leaves) := by
  induction ns with
  | nil => exact List.Sublist.refl []
  | cons n ns ih =>
    obtain ⟨hn, hns⟩ := List.forall_mem_cons.mp h
    rw [List.flatMap_cons]
    by_cases hp : p n = true
    · rw [List.filter_cons_of_pos hp, leaves_of_isTerminal (hn hp)]
      exact (ih hns).cons_cons n
    · rw [List.filter_cons_of_neg hp]
      exact (ih hns).trans (List.sublist_append_right _ _)

/-- What holds of the leaves of every node holds of the leaves of all. -/
theorem filter_leaves_eq {ns : List Node} (h : ∀ n ∈ ns, n.leaves.filter p = [n].filter p) :
    (ns.flatMap leaves).filter p = ns.filter p := by
  induction ns with
  | nil => rfl
  | cons n ns ih =>
    obtain ⟨hn, hns⟩ := List.forall_mem_cons.mp h
    rw [List.flatMap_cons, List.filter_append, hn, ih hns, ← List.filter_append,
      List.singleton_append]

/-- A sticky word has no leaf of another kind than option. -/
theorem WellFormed.filter_leaves_of_kind {c : Node} (hc : c.WellFormed)
    (hgroup : c.kind.isComposite = false) (hoption : k ≠ .option) (hsticky : k ≠ .stickyOption) :
    c.leaves.filter (fun l => l.kind = k) = [c].filter fun l => l.kind = k := by
  rcases isTerminal_or_isSticky hgroup with hterminal | hs
  · rw [leaves_of_isTerminal hterminal]
  · have hnone : ∀ l ∈ c.children, ¬ l.kind = k := by
      intro l hl
      have hk := isOption_iff_kind.mp (hc.isOption_of_mem_children hs hl)
      exact fun h => hoption (h.symm.trans hk)
    have hself : ¬ c.kind = k := by
      rw [isSticky_iff_kind.mp hs]
      exact fun h => hsticky h.symm
    rw [leaves_of_isSticky hs]
    simpa [hself] using hnone

/-! ## Options -/

/-- The options of a side are among the leaves of the side. -/
theorem sideOptions_sublist_leaves (side : List Node) :
    (sideOptions side).Sublist (side.flatMap leaves) := by
  rw [sideOptions]
  cases hg : side.find? isSticky with
  | none => exact filter_sublist_leaves fun n _ h => isTerminal_of_isFlag h
  | some g =>
    simp only [← leaves_of_isSticky (List.find?_some hg), List.flatMap_def]
    exact List.sublist_flatten_of_mem (List.mem_map_of_mem (List.mem_of_find?_eq_some hg))

/-- What a scan of some children of a group yields is among the leaves of the group. -/
theorem WellFormed.scanOptions_sublist_leaves {g : GroupKind} {s : Span} {ps side : List Node}
    (hn : (group g s ps).WellFormed) (hside : side.Sublist ps) :
    (scanOptions [] side).Sublist (group g s ps).leaves := by
  have hwf : ∀ c ∈ side, c.WellFormed := fun c hc => hn.of_mem_children (hside.subset hc)
  rw [scanOptions_eq_sideOptions hwf, leaves_group]
  exact (sideOptions_sublist_leaves side).trans (hside.flatMap leaves)

/-- The question for an option of a node that is no group is about its leaves. -/
theorem WellFormed.answers_iff_leaves {c : Node} (hc : c.WellFormed)
    (hgroup : c.kind.isComposite = false) :
    (c.optionName? = some name ∨ c.isSticky = true ∧ anyOption name none c.children = true) ↔
      ∃ l ∈ c.leaves, l.optionName? = some name := by
  rcases isTerminal_or_isSticky hgroup with hterminal | hs
  · have hs : c.isSticky = false := by
      rw [← Bool.not_eq_true, isSticky_iff_kind]
      exact (isTerminal_iff_kind.mp hterminal).2
    simp [leaves_of_isTerminal hterminal, hs]
  · have hname : c.optionName? ≠ some name := by
      intro h
      simp [isSticky_eq_false_of_isFlag (isFlag_of_optionName? h)] at hs
    rw [leaves_of_isSticky hs, anyOption_none_iff]
    simp only [hname, hs, true_and, false_or]
    refine exists_congr fun l => and_congr_right fun hl => ?_
    have hflag := isFlag_of_isOption (hc.isOption_of_mem_children hs hl)
    simp [isSticky_eq_false_of_isFlag hflag]

/-! ## Children of one kind -/

/-- `pick` recognizes the nodes of kind `k`, and `wrap` is the node that it takes apart. -/
def PicksKind {α : Type} (pick : Node → Option α) (wrap : α → Node) (k : Kind) : Prop :=
  ∀ n, (pick n).map wrap = if n.kind = k then some n else none

theorem picksKind_argument : PicksKind argument? (word .argument) .argument := by
  intro n
  cases n with
  | word k w => cases k <;> rfl
  | group k s ps => cases k <;> rfl
  | _ => rfl

theorem picksKind_assignment : PicksKind assignment? assignment .assignment := by
  intro n
  cases n with
  | word k w => cases k <;> rfl
  | group k s ps => cases k <;> rfl
  | _ => rfl

theorem picksKind_redirect : PicksKind redirect? redirect .redirect := by
  intro n
  cases n with
  | word k w => cases k <;> rfl
  | group k s ps => cases k <;> rfl
  | _ => rfl

theorem picksKind_subcommand : PicksKind subcommand? subcommand .subcommand := by
  intro n
  cases n with
  | word k w => cases k <;> rfl
  | group k s ps => cases k <;> rfl
  | _ => rfl

theorem PicksKind.map_filterMap {α : Type} {pick : Node → Option α} {wrap : α → Node}
    (h : PicksKind pick wrap k) (ns : List Node) :
    (ns.filterMap pick).map wrap = ns.filter fun n => n.kind = k := by
  rw [List.map_filterMap]
  induction ns with
  | nil => rfl
  | cons n ns ih =>
    by_cases hk : n.kind = k
    · simp [h n, hk, ih]
    · simp [h n, hk, ih]

/-- The nodes that a question for a kind yields, and the leaves of the node asked: they are
among the leaves, and they are the leaves of that kind where no part is a group. -/
structure SeenInLeaves (n : Node) (k : Kind) (found : Option (List Node)) : Prop where
  sublist : ∃ ns, found = some ns ∧ ns.Sublist n.leaves
  exact : (∀ c ∈ n.children, c.kind.isComposite = false) →
    found = some (n.leaves.filter fun l => l.kind = k)

theorem WellFormed.seenInLeaves {α : Type} {pick : Node → Option α} {wrap : α → Node}
    {g : GroupKind} {s : Span} {ps : List Node} (hn : (group g s ps).WellFormed)
    (hpick : PicksKind pick wrap k) (hgroup : k.isComposite = false)
    (hsticky : k ≠ .stickyOption) (hoption : k ≠ .option) :
    (group g s ps).SeenInLeaves k (some ((ps.filterMap pick).map wrap)) := by
  rw [hpick.map_filterMap]
  constructor
  case sublist =>
    refine ⟨_, rfl, ?_⟩
    rw [leaves_group]
    refine filter_sublist_leaves fun n _ hk => isTerminal_iff_kind.mpr ?_
    obtain rfl : n.kind = k := by simpa using hk
    exact ⟨hgroup, hsticky⟩
  case exact =>
    intro hparts
    rw [leaves_group, filter_leaves_eq]
    intro c hc
    exact (hn.of_mem_children hc).filter_leaves_of_kind (hparts c hc) hoption hsticky

theorem exists_eq_group_of_isComposite {n : Node} (h : n.kind.isComposite = true) :
    ∃ g s, n = group g s n.children := by
  cases n with
  | group g s ps => exact ⟨g, s, rfl⟩
  | word k w => simp [kind] at h
  | _ => simp [kind, Kind.isComposite] at h

/-- Questions about a checked group and its leaves see the same nodes. The options of its
two sides, and its arguments, assignments, redirects and subcommands, are among its leaves
in their order, and so is its program. If no part is a group, its leaves of a kind are what
the question for that kind yields, and it has an option exactly when a leaf is one. -/
theorem questions_see_leaves {n : Node} (hn : n.check = .ok ()) (hk : n.kind.isComposite = true) :
    (∃ os, n.wrapperOptions? = some os ∧ os.Sublist n.leaves) ∧
    (∃ os, n.programOptions? = some os ∧ os.Sublist n.leaves) ∧
    n.SeenInLeaves .argument (n.arguments?.map (List.map (word .argument))) ∧
    n.SeenInLeaves .assignment (n.assignments?.map (List.map assignment)) ∧
    n.SeenInLeaves .redirect (n.redirects?.map (List.map redirect)) ∧
    n.SeenInLeaves .subcommand (n.subcommands?.map (List.map subcommand)) ∧
    (∀ p, n.commandProgram? = some p → program p ∈ n.leaves) ∧
    ((∀ c ∈ n.children, c.kind.isComposite = false) → ∀ name,
      (n.hasOption name none = true ↔ ∃ l ∈ n.leaves, l.optionName? = some name)) := by
  rw [check_eq_ok_iff] at hn
  obtain ⟨g, s, heq⟩ := exists_eq_group_of_isComposite hk
  generalize n.children = ps at heq ⊢
  subst heq
  refine ⟨?_, ?_, ?_, ?_, ?_, ?_, ?_, ?_⟩
  · exact ⟨_, rfl, hn.scanOptions_sublist_leaves (List.take_sublist _ ps)⟩
  · obtain ⟨side, hside⟩ : ∃ side, (group g s ps).programSide? = some side := by
      cases g <;> exact ⟨_, rfl⟩
    obtain ⟨before, hbefore⟩ := exists_append_of_programSide? hside
    rw [programOptions?, hside]
    refine ⟨_, rfl, hn.scanOptions_sublist_leaves ?_⟩
    rw [← children_group g s ps, hbefore]
    exact List.sublist_append_right before side
  · exact hn.seenInLeaves picksKind_argument rfl (by decide) (by decide)
  · exact hn.seenInLeaves picksKind_assignment rfl (by decide) (by decide)
  · exact hn.seenInLeaves picksKind_redirect rfl (by decide) (by decide)
  · exact hn.seenInLeaves picksKind_subcommand rfl (by decide) (by decide)
  · intro p hp
    obtain ⟨c, hc, hpick⟩ := List.exists_of_findSome?_eq_some hp
    obtain rfl : c = program p := by
      cases c with
      | program q => exact congrArg program (Option.some.inj hpick)
      | _ => simp [program?] at hpick
    rw [leaves_group]
    refine List.mem_flatMap.mpr ⟨_, hc, ?_⟩
    rw [leaves_of_isTerminal rfl]
    exact List.mem_singleton_self _
  · intro hparts name
    rw [hasOption_eq_anyOption, anyOption_none_iff, leaves_group]
    simp only [List.mem_flatMap]
    constructor
    · rintro ⟨c, hc, h⟩
      obtain ⟨l, hl, hname⟩ :=
        ((hn.of_mem_children hc).answers_iff_leaves (hparts c hc)).mp h
      exact ⟨l, ⟨c, hc, hl⟩, hname⟩
    · rintro ⟨l, ⟨c, hc, hl⟩, hname⟩
      exact ⟨c, hc, ((hn.of_mem_children hc).answers_iff_leaves (hparts c hc)).mpr ⟨l, hl, hname⟩⟩

/-- The tree of `A=1 git commit -am msg >o`: a leaf of almost every kind, and a sticky word. -/
def gitCommit : Node :=
  .group .command ⟨0, 25⟩
    [.assignment ⟨⟨0, 3⟩, "A", "1"⟩,
      .program ⟨⟨4, 7⟩, "git", "git", none⟩,
      .subcommand ⟨⟨8, 14⟩, "commit", none⟩,
      .sticky ⟨15, 18⟩ "-am"
        [.option ⟨⟨16, 17⟩, "a", "-a", none⟩, .option ⟨⟨17, 18⟩, "m", "-m", none⟩],
      .word .argument ⟨⟨19, 22⟩, "msg"⟩,
      .redirect ⟨⟨23, 25⟩, .write, none, some ⟨⟨24, 25⟩, "o"⟩, none⟩]

theorem questions_see_leaves_gitCommit :
    gitCommit.check = .ok () ∧ gitCommit.kind.isComposite = true ∧
      (∀ c ∈ gitCommit.children, c.kind.isComposite = false) ∧
      gitCommit.leaves.map kind =
        [.assignment, .program, .subcommand, .option, .option, .argument, .redirect] ∧
      (∃ os, gitCommit.programOptions? = some os ∧ os.Sublist gitCommit.leaves) ∧
      gitCommit.arguments?.map (List.map (word .argument)) =
        some (gitCommit.leaves.filter fun l => l.kind = .argument) ∧
      gitCommit.hasOption "-m" none = true := by
  have hcheck : gitCommit.check = .ok () := rfl
  have hparts : ∀ c ∈ gitCommit.children, c.kind.isComposite = false := by decide
  obtain ⟨-, hoptions, harguments, -, -, -, -, hnames⟩ := questions_see_leaves hcheck rfl
  refine ⟨hcheck, rfl, hparts, rfl, hoptions, harguments.exact hparts, ?_⟩
  exact (hnames hparts "-m").mpr ⟨.option ⟨⟨17, 18⟩, "m", "-m", none⟩, by simp [gitCommit], rfl⟩

end ShellGloss.Node
