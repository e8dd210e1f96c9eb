import ShellGloss.Proofs.OptionSides

/-!
# Asking for an option

Options can be listed, looked for by name, or asked about with yes or no. The three
scans treat a sticky word in three ways: a list drops what came before the first one, a
search looks at that and then goes into the word, and neither goes past it; the question
goes into every sticky word. Whatever the tree, what is listed is found and what is found
is there (`sideAgrees_of_subset`). The converse holds of a command whose sticky words have
nothing after them that the question could be about.

What makes the question true is said once, of any nodes (`Answers`,
`anyOption_eq_true_iff`). With a value it is a matter of the children alone: in a checked
tree a sticky word holds bare options and no arguments.
-/

namespace ShellGloss.Node

variable {name : String} {value : Option String}

/-- Induction over a list of nodes that may assume the property of the list below each. -/
theorem induct_lists {motive : List Node → Prop}
    (step : ∀ ns, (∀ n ∈ ns, motive n.children) → motive ns) (ns : List Node) : motive ns := by
  have hbelow (n : Node) : motive n.children := by
    induction n using induct_children with
    | step n ih => exact step n.children ih
  exact step ns fun n _ => hbelow n

theorem isFlag_of_optionName? {n : Node} (h : n.optionName? = some name) : n.isFlag = true := by
  rw [← isSome_optionName?, h]
  rfl

/-! ## What answers the question -/

/-- The node answers the question for an option of that name, where `rest` comes after it. -/
def Answers (name : String) (value : Option String) (n : Node) (rest : List Node) : Prop :=
  match n with
  | option o => o.name = name ∧ (value = none ∨ startsWithArgument rest = true)
  | optionWithArg o => o.option.name = name ∧ (value = none ∨ value = some o.argument.word)
  | sticky _ _ options => anyOption name value options = true
  | program _ | subcommand _ | assignment _ | redirect _ | word .. | group .. => False

theorem anyOption_cons_iff {n : Node} {rest : List Node} :
    anyOption name value (n :: rest) = true ↔
      Answers name value n rest ∨ anyOption name value rest = true := by
  cases n with
  | sticky s w os => rw [anyOption, Bool.or_eq_true, hasOption, Answers]
  | _ => simp [anyOption, Answers]

/-- The question is true of some nodes when one of them answers it, with those behind it. -/
theorem anyOption_eq_true_iff {ns : List Node} :
    anyOption name value ns = true ↔
      ∃ i n, ns[i]? = some n ∧ Answers name value n (ns.drop (i + 1)) := by
  induction ns with
  | nil => simp [anyOption]
  | cons c ns ih =>
    rw [anyOption_cons_iff, ih]
    constructor
    · intro h
      rcases h with h | ⟨i, n, hn, h⟩
      · exact ⟨0, c, rfl, h⟩
      · exact ⟨i + 1, n, hn, h⟩
    · rintro ⟨i, n, hn, h⟩
      cases i with
      | zero =>
        obtain rfl : c = n := Option.some.inj hn
        exact .inl h
      | succ i => exact .inr ⟨i, n, hn, h⟩

theorem answers_none_iff {n : Node} {rest : List Node} :
    Answers name none n rest ↔
      n.optionName? = some name ∨ n.isSticky = true ∧ anyOption name none n.children = true := by
  cases n <;> simp [Answers, optionName?, isSticky]

/-- Without a value, the question looks for the name among the nodes and in the sticky words. -/
theorem anyOption_none_iff {ns : List Node} :
    anyOption name none ns = true ↔
      ∃ n ∈ ns, n.optionName? = some name ∨
        n.isSticky = true ∧ anyOption name none n.children = true := by
  rw [anyOption_eq_true_iff]
  constructor
  · rintro ⟨i, n, hn, h⟩
    exact ⟨n, List.mem_of_getElem? hn, answers_none_iff.mp h⟩
  · rintro ⟨n, hn, h⟩
    obtain ⟨i, hi⟩ := List.mem_iff_getElem?.mp hn
    exact ⟨i, n, hi, answers_none_iff.mpr h⟩

theorem anyOption_none_append_iff {xs ys : List Node} :
    anyOption name none (xs ++ ys) = true ↔
      anyOption name none xs = true ∨ anyOption name none ys = true := by
  rw [anyOption_none_iff, anyOption_none_iff, anyOption_none_iff]
  simp only [List.mem_append, or_and_right, exists_or]

theorem hasOption_eq_anyOption (n : Node) :
    n.hasOption name value = anyOption name value n.children := by
  cases n with
  | sticky s w os => rw [hasOption, children_sticky]
  | group k s ps => rw [hasOption, children_group]
  | _ => simp [hasOption, children, children?, anyOption]

/-- With a value the question asks for more than without one. -/
theorem anyOption_none_of_anyOption {ns : List Node} (h : anyOption name value ns = true) :
    anyOption name none ns = true := by
  induction ns using induct_lists with
  | step ns ih =>
    obtain ⟨i, n, hn, h⟩ := anyOption_eq_true_iff.mp h
    have hmem := List.mem_of_getElem? hn
    refine anyOption_none_iff.mpr ⟨n, hmem, ?_⟩
    cases n with
    | option o => exact .inl (congrArg some h.1)
    | optionWithArg o => exact .inl (congrArg some h.1)
    | sticky s w os => exact .inr ⟨rfl, ih _ hmem h⟩
    | _ => exact h.elim

/-! ## Listed, found, there -/

/-- What is found has the name that was looked for. -/
theorem optionName?_of_findOption? {ns : List Node} {m : Node}
    (h : findOption? name ns = some m) : m.optionName? = some name := by
  induction ns using induct_lists with
  | step ns ih =>
    rw [findOption?_eq, Option.or_eq_some_iff] at h
    rcases h with h | ⟨-, h⟩
    · simpa using List.find?_some h
    · obtain ⟨g, hg, h⟩ := Option.bind_eq_some_iff.mp h
      exact ih g (List.mem_of_find?_eq_some hg) h

/-- A search looks at the nodes in front of a sticky word before anything else. -/
theorem findOption?_append {before : List Node} (h : ∀ n ∈ before, n.isSticky = false)
    (after : List Node) :
    findOption? name (before ++ after) =
      (before.find? fun n => n.optionName? = some name).or (findOption? name after) := by
  induction before with
  | nil => rfl
  | cons n before ih =>
    obtain ⟨hn, hbefore⟩ := List.forall_mem_cons.mp h
    rw [List.cons_append, findOption?, findGrouped?_of_not_isSticky hn]
    by_cases hname : n.optionName? = some name
    · simp [hname]
    · simp [hname, ih hbefore]

/-- Nodes without a sticky word are searched as a list. -/
theorem findOption?_eq_find? {ns : List Node} (h : ∀ n ∈ ns, n.isSticky = false) :
    findOption? name ns = ns.find? fun n => n.optionName? = some name := by
  have happend : findOption? name (ns ++ []) = _ := findOption?_append h []
  rwa [List.append_nil, findOption?, Option.or_none] at happend

theorem findOption?_sticky_cons {g : Node} (h : g.isSticky = true) (rest : List Node) :
    findOption? name (g :: rest) = findOption? name g.children := by
  cases g with
  | sticky s w os => rw [findOption?, findGrouped?, children_sticky]
  | _ => simp [isSticky] at h

/-- A search goes through the options that a list would hold. -/
theorem find?_filter_isFlag (ns : List Node) :
    (ns.filter isFlag).find? (fun n => n.optionName? = some name) =
      ns.find? fun n => n.optionName? = some name := by
  rw [List.find?_filter]
  congr 1
  funext n
  by_cases hn : n.optionName? = some name
  · simp [hn, isFlag_of_optionName? hn]
  · simp [hn]

theorem find?_isSticky_eq_none_iff {ns : List Node} :
    ns.find? isSticky = none ↔ ∀ n ∈ ns, n.isSticky = false := by
  simp

/-- Where an option of that name is listed, one is found, be it another one before it. -/
theorem exists_findOption?_of_mem {ns : List Node} {o : Node} (ho : o ∈ scanOptions [] ns)
    (hname : o.optionName? = some name) : ∃ m, findOption? name ns = some m := by
  induction ns using induct_lists with
  | step ns ih =>
    rw [scanOptions_eq] at ho
    cases hg : ns.find? isSticky with
    | none =>
      simp only [hg, List.nil_append] at ho
      rw [findOption?_eq_find? (find?_isSticky_eq_none_iff.mp hg), ← Option.isSome_iff_exists,
        List.find?_isSome]
      exact ⟨o, List.mem_of_mem_filter ho, by simpa using hname⟩
    | some g =>
      simp only [hg] at ho
      obtain ⟨m, hm⟩ := ih g (List.mem_of_find?_eq_some hg) ho
      -- what stands before the sticky word comes first
      rw [findOption?_eq, hg, Option.bind_some, hm, ← Option.isSome_iff_exists]
      simp

/-- Where an option is found, there is one. -/
theorem anyOption_of_findOption? {ns : List Node} {m : Node}
    (h : findOption? name ns = some m) : anyOption name none ns = true := by
  induction ns using induct_lists with
  | step ns ih =>
    rw [anyOption_none_iff]
    rw [findOption?_eq, Option.or_eq_some_iff] at h
    rcases h with h | ⟨-, h⟩
    · have hmem := List.takeWhile_subset _ (List.mem_of_find?_eq_some h)
      exact ⟨m, hmem, .inl (by simpa using List.find?_some h)⟩
    · obtain ⟨g, hg, h⟩ := Option.bind_eq_some_iff.mp h
      have hmem := List.mem_of_find?_eq_some hg
      exact ⟨g, hmem, .inr ⟨List.find?_some hg, ih g hmem h⟩⟩

/-! ## The sides of a node -/

theorem exists_append_of_programSide? {n : Node} {side : List Node}
    (h : n.programSide? = some side) : ∃ before, n.children = before ++ side := by
  cases n with
  | group k s ps =>
    cases k with
    | command =>
      obtain rfl : ps.drop _ = side := Option.some.inj h
      exact ⟨_, (List.take_append_drop _ ps).symm⟩
    | _ => exact ⟨[], Option.some.inj h⟩
  | sticky s w os => exact ⟨[], Option.some.inj h⟩
  | _ => simp [programSide?, children?] at h

theorem exists_append_of_wrapperSide? {n : Node} {side : List Node}
    (h : n.wrapperSide? = some side) : ∃ after, n.children = side ++ after := by
  rw [wrapperSide?] at h
  obtain ⟨cs, hcs, rfl⟩ := Option.map_eq_some_iff.mp h
  rw [children, hcs]
  exact ⟨_, (List.take_append_drop _ cs).symm⟩

/-- The two sides of a command are all of its parts. -/
theorem exists_sides_of_command (s : Span) (ps : List Node) :
    ∃ before after, (group .command s ps).wrapperSide? = some before ∧
      (group .command s ps).programSide? = some after ∧ before ++ after = ps := by
  exact ⟨_, _, rfl, rfl, List.take_append_drop _ ps⟩

/-- What is asked of one side of a node, by its list of options and the option of that name
found there, agrees with the question whether the node has the option. -/
structure SideAgrees (n : Node) (name : String) (side options : Option (List Node))
    (found : Option Node) : Prop where
  found_of_listed : ∀ os o, options = some os → o ∈ os → o.optionName? = some name →
    ∃ m, found = some m ∧ m.optionName? = some name
  has_of_found : ∀ m, found = some m → n.hasOption name none = true
  found_eq_first : ∀ ns, side = some ns → (∀ c ∈ ns, c.kind ≠ .stickyOption) →
    ∃ os, options = some os ∧ found = os.find? fun o => o.optionName? = some name

theorem sideAgrees_of_subset {n : Node} {side : Option (List Node)}
    (h : ∀ ns, side = some ns → ns ⊆ n.children) :
    SideAgrees n name side (side.map (scanOptions [])) (side.bind (findOption? name)) := by
  cases side with
  | none =>
    constructor
    · intro os o hos
      simp at hos
    · intro m hm
      simp at hm
    · intro ns hns
      simp at hns
  | some ns =>
    have hns : ns ⊆ n.children := h ns rfl
    constructor
    case found_of_listed =>
      intro os o hos ho hname
      obtain rfl : scanOptions [] ns = os := Option.some.inj hos
      obtain ⟨m, hm⟩ := exists_findOption?_of_mem ho hname
      exact ⟨m, hm, optionName?_of_findOption? hm⟩
    case has_of_found =>
      intro m hm
      rw [hasOption_eq_anyOption, anyOption_none_iff]
      obtain ⟨c, hc, h⟩ := anyOption_none_iff.mp (anyOption_of_findOption? hm)
      exact ⟨c, hns hc, h⟩
    case found_eq_first =>
      intro ns' hns' hkinds
      obtain rfl : ns = ns' := Option.some.inj hns'
      have hsticky : ∀ c ∈ ns, c.isSticky = false := by
        intro c hc
        rw [← Bool.not_eq_true, isSticky_iff_kind]
        exact hkinds c hc
      refine ⟨_, rfl, ?_⟩
      rw [Option.bind_some, findOption?_eq_find? hsticky, scanOptions_eq,
        find?_isSticky_eq_none_iff.mpr hsticky, List.nil_append]
      exact (find?_filter_isFlag ns).symm

/-- No option and no sticky word comes after a sticky word. -/
def StickyLast (side : List Node) : Prop :=
  side.Pairwise fun a b => a.kind = .stickyOption →
    b.kind ≠ .option ∧ b.kind ≠ .optionWithArg ∧ b.kind ≠ .stickyOption

instance (side : List Node) : Decidable (StickyLast side) :=
  inferInstanceAs (Decidable (side.Pairwise _))

theorem StickyLast.of_append_cons {before after : List Node} {g : Node}
    (h : StickyLast (before ++ g :: after)) (hg : g.isSticky = true) :
    ∀ c ∈ after, c.isFlag = false ∧ c.isSticky = false := by
  obtain ⟨-, hright, -⟩ := List.pairwise_append.mp h
  intro c hc
  obtain ⟨hoption, hbound, hsticky⟩ :=
    (List.pairwise_cons.mp hright).1 c hc (isSticky_iff_kind.mp hg)
  simp only [← Bool.not_eq_true, isFlag_iff_kind, isSticky_iff_kind, not_or]
  exact ⟨⟨hoption, hbound⟩, hsticky⟩

/-- Among nodes without a sticky word the search finds an option whenever there is one. -/
theorem isSome_find?_of_anyOption {ns : List Node} (hns : ∀ n ∈ ns, n.isSticky = false)
    (h : anyOption name none ns = true) :
    (ns.find? fun n => n.optionName? = some name).isSome = true := by
  obtain ⟨n, hn, h⟩ := anyOption_none_iff.mp h
  rw [List.find?_isSome]
  rcases h with h | ⟨hsticky, -⟩
  · exact ⟨n, hn, by simpa using h⟩
  · simp [hns n hn] at hsticky

/-- Nodes that are neither options nor sticky words have no option. -/
theorem anyOption_eq_false {ns : List Node}
    (h : ∀ n ∈ ns, n.isFlag = false ∧ n.isSticky = false) : anyOption name none ns = false := by
  rw [← Bool.not_eq_true, anyOption_none_iff]
  rintro ⟨n, hn, hanswer⟩
  obtain ⟨hflag, hsticky⟩ := h n hn
  rcases hanswer with hname | ⟨hs, -⟩
  · simp [isFlag_of_optionName? hname] at hflag
  · simp [hsticky] at hs

/-- On a side with nothing behind a sticky word that it could miss, the search finds an
option whenever there is one. -/
theorem anyOption_iff_isSome_findOption? {side : List Node} (hwf : ∀ n ∈ side, n.WellFormed)
    (hlast : StickyLast side) :
    anyOption name none side = true ↔ (findOption? name side).isSome = true := by
  constructor
  · intro h
    cases hg : side.find? isSticky with
    | none =>
      have hside := find?_isSticky_eq_none_iff.mp hg
      rw [findOption?_eq_find? hside]
      exact isSome_find?_of_anyOption hside h
    | some g =>
      obtain ⟨hsticky, before, after, rfl, hbefore⟩ := List.find?_eq_some_iff_append.mp hg
      have hbefore : ∀ c ∈ before, c.isSticky = false := by simpa using hbefore
      have hwfg : g.WellFormed := hwf g (by simp)
      have hchildren : ∀ c ∈ g.children, c.isSticky = false := by
        intro c hc
        exact isSticky_eq_false_of_isFlag (hwfg.isFlag_of_mem_children hsticky hc).1
      rw [findOption?_append hbefore, findOption?_sticky_cons hsticky,
        findOption?_eq_find? hchildren, Option.isSome_or, Bool.or_eq_true]
      rw [anyOption_none_append_iff, anyOption_cons_iff, answers_none_iff] at h
      rcases h with h | (hname | ⟨-, hinside⟩) | h
      · exact .inl (isSome_find?_of_anyOption hbefore h)
      · simp [isSticky_eq_false_of_isFlag (isFlag_of_optionName? hname)] at hsticky
      · exact .inr (isSome_find?_of_anyOption hchildren hinside)
      · rw [anyOption_eq_false (hlast.of_append_cons hsticky)] at h
        cases h
  · intro h
    obtain ⟨m, hm⟩ := Option.isSome_iff_exists.mp h
    exact anyOption_of_findOption? hm

/-- The three ways to ask for an option agree. On either side of any node, an option that
is listed is found, and one that is found is there; without a sticky word the one that is
found is the first of that name in the list. In a command that passes the check and has no
option behind a sticky word, an option is there exactly when it is found on a side. -/
theorem option_questions_agree (n : Node) (name : String) :
    SideAgrees n name n.wrapperSide? n.wrapperOptions? (n.wrapperOption? name) ∧
    SideAgrees n name n.programSide? n.programOptions? (n.programOption? name) ∧
    (n.check = .ok () → n.kind = .command →
      (∀ side, n.wrapperSide? = some side ∨ n.programSide? = some side → StickyLast side) →
      (n.hasOption name none = true ↔
        (n.wrapperOption? name).isSome = true ∨ (n.programOption? name).isSome = true)) := by
  refine ⟨sideAgrees_of_subset fun side hside => ?_, sideAgrees_of_subset fun side hside => ?_, ?_⟩
  · obtain ⟨after, hafter⟩ := exists_append_of_wrapperSide? hside
    rw [hafter]
    exact List.subset_append_left side after
  · obtain ⟨before, hbefore⟩ := exists_append_of_programSide? hside
    rw [hbefore]
    exact List.subset_append_right before side
  · intro hn hk hlast
    obtain ⟨s, heq⟩ := exists_eq_group_of_kind hk
    rw [check_eq_ok_iff, heq] at hn
    obtain ⟨-, -, hparts⟩ := hn
    obtain ⟨before, after, hwrapper, hprogram, happend⟩ := exists_sides_of_command s n.children
    rw [← heq] at hwrapper hprogram
    have hwf : ∀ c ∈ before ++ after, c.WellFormed := happend ▸ hparts
    obtain ⟨hbefore, hafter⟩ := List.forall_mem_append.mp hwf
    rw [hasOption_eq_anyOption, ← happend, anyOption_none_append_iff,
      anyOption_iff_isSome_findOption? hbefore (hlast before (.inl hwrapper)),
      anyOption_iff_isSome_findOption? hafter (hlast after (.inr hprogram)),
      wrapperOption?, programOption?, hwrapper, hprogram, Option.bind_some, Option.bind_some]

theorem option_questions_agree_aptInstall :
    aptInstall.check = .ok () ∧ aptInstall.kind = .command ∧
      aptInstall.wrapperSide? = some (aptInstall.children.take 2) ∧
      aptInstall.programSide? = some (aptInstall.children.drop 2) ∧
      StickyLast (aptInstall.children.take 2) ∧ StickyLast (aptInstall.children.drop 2) ∧
      (aptInstall.programOption? "-y").map optionName? = some (some "-y") ∧
      aptInstall.hasOption "-y" none = true ∧
      aptInstall.hasOption "-V" none = true ∧ aptInstall.hasOption "-a" none = false := by
  have hwrapper : aptInstall.wrapperSide? = some (aptInstall.children.take 2) := rfl
  have hprogram : aptInstall.programSide? = some (aptInstall.children.drop 2) := rfl
  have hbefore : StickyLast (aptInstall.children.take 2) := by decide
  have hafter : StickyLast (aptInstall.children.drop 2) := by decide
  have hlast : ∀ side, aptInstall.wrapperSide? = some side ∨ aptInstall.programSide? = some side →
      StickyLast side := by
    intro side h
    rcases h with h | h
    · exact Option.some.inj (hwrapper.symm.trans h) ▸ hbefore
    · exact Option.some.inj (hprogram.symm.trans h) ▸ hafter
  obtain ⟨-, hside, -⟩ := option_questions_agree aptInstall "-y"
  have hiff (name : String) := (option_questions_agree aptInstall name).2.2 rfl rfl hlast
  refine ⟨rfl, rfl, hwrapper, hprogram, hbefore, hafter, rfl, hside.has_of_found _ rfl,
    (hiff "-V").mpr (.inr rfl), ?_⟩
  rw [← Bool.not_eq_true, hiff]
  decide

/-! ## Asking with a value -/

theorem startsWithArgument_iff {ns : List Node} :
    startsWithArgument ns = true ↔ ∃ w, ns.head? = some (.word .argument w) := by
  cases ns with
  | nil => simp [startsWithArgument]
  | cons n ns =>
    cases n with
    | word k w => cases k <;> simp [startsWithArgument, argument?]
    | _ => simp [startsWithArgument, argument?]

theorem WellFormed.isOption_of_mem_children {g c : Node} (hg : g.WellFormed)
    (hs : g.isSticky = true) (hc : c ∈ g.children) : c.isOption = true := by
  cases g with
  | sticky s w os =>
    obtain ⟨-, hrules, -⟩ := hg
    exact hrules.isOption c hc
  | _ => simp [isSticky] at hs

/-- No option in a sticky word answers a question with a value: none has an argument. -/
theorem WellFormed.anyOption_children_eq_false {g : Node} (hg : g.WellFormed)
    (hs : g.isSticky = true) (v : String) : anyOption name (some v) g.children = false := by
  rw [← Bool.not_eq_true, anyOption_eq_true_iff]
  rintro ⟨i, c, hc, h⟩
  have hbare := hg.isOption_of_mem_children hs (List.mem_of_getElem? hc)
  cases c with
  | option o =>
    obtain ⟨-, hnone | hargument⟩ := h
    · simp at hnone
    · obtain ⟨w, hw⟩ := startsWithArgument_iff.mp hargument
      rw [List.head?_drop] at hw
      have hnext := hg.isOption_of_mem_children hs (List.mem_of_getElem? hw)
      simp [isOption] at hnext
  | _ => simp [isOption] at hbare

/-- A bare option of that name among the nodes has an argument right behind it. -/
def HasArgued (name : String) (ns : List Node) : Prop :=
  ∃ i o w, ns[i]? = some (.option o) ∧ o.name = name ∧ ns[i + 1]? = some (.word .argument w)

/-- An option of that name among the nodes is bound to that value. -/
def HasBound (name value : String) (ns : List Node) : Prop :=
  ∃ (i : Nat) (o : BoundFlag),
    ns[i]? = some (.optionWithArg o) ∧ o.option.name = name ∧ o.argument.word = value

/-- With a value, only the children of a well-formed node answer the question. -/
theorem WellFormed.hasOption_some_iff {n : Node} (hn : n.WellFormed) {v : String} :
    n.hasOption name (some v) = true ↔
      HasArgued name n.children ∨ HasBound name v n.children := by
  rw [hasOption_eq_anyOption, anyOption_eq_true_iff]
  constructor
  · rintro ⟨i, c, hc, h⟩
    cases c with
    | option o =>
      obtain ⟨hname, hnone | hargument⟩ := h
      · simp at hnone
      · obtain ⟨w, hw⟩ := startsWithArgument_iff.mp hargument
        rw [List.head?_drop] at hw
        exact .inl ⟨i, o, w, hc, hname, hw⟩
    | optionWithArg o =>
      obtain ⟨hname, hnone | hvalue⟩ := h
      · simp at hnone
      · exact .inr ⟨i, o, hc, hname, (Option.some.inj hvalue).symm⟩
    | sticky s w os =>
      have hg := hn.of_mem_children (List.mem_of_getElem? hc)
      exact absurd h (Bool.eq_false_iff.mp (hg.anyOption_children_eq_false rfl v))
    | _ => exact h.elim
  · intro h
    rcases h with ⟨i, o, w, ho, hname, hw⟩ | ⟨i, o, ho, hname, hvalue⟩
    · refine ⟨i, _, ho, hname, .inr (startsWithArgument_iff.mpr ⟨w, ?_⟩)⟩
      rw [List.head?_drop, hw]
    · exact ⟨i, _, ho, hname, .inr (congrArg some hvalue.symm)⟩

/-- With a value, the question whether a checked node has an option is about its children.
It is true when a bare option of that name has an argument right behind it, whatever the
value, or when an option of that name is bound to the value. A sticky word contributes
nothing, also where an argument follows it, only bound options tell values apart, and
whatever has the option with a value has it without. -/
theorem hasOption_with_value {n : Node} (hn : n.check = .ok ()) (name : String) :
    (∀ v, n.hasOption name (some v) = true ↔
      HasArgued name n.children ∨ HasBound name v n.children) ∧
    (∀ g ∈ n.children, g.kind = .stickyOption → ∀ v, g.hasOption name (some v) = false) ∧
    ((∀ c ∈ n.children, c.optionName? ≠ some name) → ∀ v, n.hasOption name (some v) = false) ∧
    (∀ v v', n.hasOption name (some v) = true → n.hasOption name (some v') = false →
      HasBound name v n.children) ∧
    ∀ v, n.hasOption name (some v) = true → n.hasOption name none = true := by
  rw [check_eq_ok_iff] at hn
  refine ⟨fun v => hn.hasOption_some_iff, ?_, ?_, ?_, ?_⟩
  · intro g hg hk v
    rw [hasOption_eq_anyOption]
    exact (hn.of_mem_children hg).anyOption_children_eq_false (isSticky_iff_kind.mpr hk) v
  · intro hnames v
    rw [← Bool.not_eq_true, hn.hasOption_some_iff]
    rintro (⟨i, o, w, ho, hname, -⟩ | ⟨i, o, ho, hname, -⟩)
    · exact hnames _ (List.mem_of_getElem? ho) (congrArg some hname)
    · exact hnames _ (List.mem_of_getElem? ho) (congrArg some hname)
  · intro v v' h h'
    rw [← Bool.not_eq_true, hn.hasOption_some_iff, not_or] at h'
    rcases hn.hasOption_some_iff.mp h with hargued | hbound
    · exact absurd hargued h'.1
    · exact hbound
  · intro v h
    rw [hasOption_eq_anyOption] at h ⊢
    exact anyOption_none_of_anyOption h

/-- The tree of `grep -e pat -C2 -rn src`: a bare option with an argument behind it, an
option bound to a value, and a sticky word with an argument behind it. -/
def grepPattern : Node :=
  .group .command ⟨0, 23⟩
    [.program ⟨⟨0, 4⟩, "grep", "grep", none⟩,
      .option ⟨⟨5, 7⟩, "-e", "-e", none⟩,
      .word .argument ⟨⟨8, 11⟩, "pat"⟩,
      .optionWithArg ⟨⟨12, 15⟩, ⟨⟨12, 14⟩, "-C", "-C", none⟩, ⟨⟨14, 15⟩, "2"⟩⟩,
      .sticky ⟨16, 19⟩ "-rn"
        [.option ⟨⟨17, 18⟩, "r", "-r", none⟩, .option ⟨⟨18, 19⟩, "n", "-n", none⟩],
      .word .argument ⟨⟨20, 23⟩, "src"⟩]

theorem hasOption_with_value_grepPattern :
    grepPattern.check = .ok () ∧
      (∀ v, grepPattern.hasOption "-e" (some v) = true) ∧
      (∀ v, grepPattern.hasOption "-C" (some v) = true ↔ v = "2") ∧
      grepPattern.hasOption "-C" none = true ∧
      (∀ v, grepPattern.hasOption "-n" (some v) = false) ∧
      grepPattern.hasOption "-n" none = true := by
  have hcheck : grepPattern.check = .ok () := rfl
  obtain ⟨hargued, -, -, -, -⟩ := hasOption_with_value hcheck "-e"
  obtain ⟨hbound, -, -, -, hnone⟩ := hasOption_with_value hcheck "-C"
  obtain ⟨-, -, hgrouped, -, -⟩ := hasOption_with_value hcheck "-n"
  have hbound2 : grepPattern.hasOption "-C" (some "2") = true :=
    (hbound "2").mpr (.inr ⟨3, _, rfl, rfl, rfl⟩)
  have hthere : grepPattern.hasOption "-n" none = true := by
    simp [grepPattern, hasOption, anyOption]
  refine ⟨hcheck, fun v => ?_, fun v => ?_, hnone "2" hbound2, ?_, hthere⟩
  · exact (hargued v).mpr (.inl ⟨1, _, _, rfl, rfl, rfl⟩)
  · constructor
    · intro h
      rcases (hbound v).mp h with ⟨i, o, w, ho, hname, -⟩ | ⟨i, o, ho, -, hvalue⟩
      · obtain rfl : o = _ := by simpa [grepPattern] using List.mem_of_getElem? ho
        simp at hname
      · obtain rfl : o = _ := by simpa [grepPattern] using List.mem_of_getElem? ho
        exact hvalue.symm
    · rintro rfl
      exact hbound2
  · exact hgrouped (by decide)

end ShellGloss.Node
