import ShellGloss.Proofs.WellFormed
import ShellGloss.Query.Options

/-!
# The two sides of a command

A scan for options sees no further than the first sticky word. That is said of both
scans by one equation each (`scanOptions_eq`, `findOption?_eq`), of any nodes at all. In a
checked tree the options of a sticky word are options and nothing else, so that the
first of these equations gives `sideOptions`, which does not scan.

The program of a checked command is the only one (`isProgram_false_of_mem`), so that
every question about it has the same answer, and the parts on either side of it are
apart from it in the source. What a scan finds fits in one of the parts that it was
given, hence it lies on the same side of the program.
-/

namespace ShellGloss.Node

/-- The node is a sticky word. -/
def isSticky : Node → Bool
  | sticky .. => true
  | _ => false

/-- The node is an option, with or without a value. -/
def isFlag : Node → Bool
  | option _ | optionWithArg _ => true
  | _ => false

theorem isSticky_iff_kind {n : Node} : n.isSticky = true ↔ n.kind = .stickyOption := by
  cases n <;> simp [isSticky, kind]
  · rename_i k _; cases k <;> simp [WordKind.kind]
  · rename_i k _ _; cases k <;> simp [GroupKind.kind]

theorem isFlag_iff_kind {n : Node} :
    n.isFlag = true ↔ n.kind = .option ∨ n.kind = .optionWithArg := by
  cases n <;> simp [isFlag, kind]
  · rename_i k _; cases k <;> simp [WordKind.kind]
  · rename_i k _ _; cases k <;> simp [GroupKind.kind]

theorem isSome_optionName? (n : Node) : n.optionName?.isSome = n.isFlag := by
  cases n <;> rfl

theorem isFlag_of_isOption {n : Node} (h : n.isOption = true) : n.isFlag = true := by
  cases n with
  | option o => rfl
  | _ => simp [isOption] at h

theorem isSticky_eq_false_of_isFlag {n : Node} (h : n.isFlag = true) : n.isSticky = false := by
  cases n with
  | sticky _ _ _ => simp [isFlag] at h
  | _ => rfl

theorem grouped?_of_not_isSticky {n : Node} (h : n.isSticky = false) : n.grouped? = none := by
  cases n with
  | sticky _ _ _ => simp [isSticky] at h
  | _ => simp [grouped?]

theorem findGrouped?_of_not_isSticky {n : Node} (h : n.isSticky = false) (name : String) :
    n.findGrouped? name = none := by
  cases n with
  | sticky _ _ _ => simp [isSticky] at h
  | _ => simp [findGrouped?]

/-! ## Scans -/

/-- A scan for options ends with those of the first sticky word, if there is one, and
else has met all options. -/
theorem scanOptions_eq (found ns : List Node) :
    scanOptions found ns =
      match ns.find? isSticky with
      | some g => scanOptions [] g.children
      | none => found ++ ns.filter isFlag := by
  induction ns generalizing found with
  | nil => simp [scanOptions]
  | cons n ns ih =>
    rw [scanOptions]
    cases hs : n.isSticky with
    | true =>
      cases n with
      | sticky s w os => simp [grouped?, hs]
      | _ => simp [isSticky] at hs
    | false =>
      rw [grouped?_of_not_isSticky hs]
      simp only [isSome_optionName?, ih, List.find?_cons, hs]
      -- what has been found so far counts only where no sticky word follows
      cases ns.find? isSticky with
      | some g => rfl
      | none => cases hf : n.isFlag <;> simp [hf]

/-- The search for an option looks at the nodes before the first sticky word, and then at
those in that word. -/
theorem findOption?_eq (name : String) (ns : List Node) :
    findOption? name ns =
      ((ns.takeWhile fun n => !n.isSticky).find? fun n => n.optionName? = some name).or
        ((ns.find? isSticky).bind fun g => findOption? name g.children) := by
  induction ns with
  | nil => simp [findOption?]
  | cons n ns ih =>
    rw [findOption?]
    cases hs : n.isSticky with
    | true =>
      cases n with
      | sticky s w os => simp [findGrouped?, hs]
      | _ => simp [isSticky] at hs
    | false =>
      rw [findGrouped?_of_not_isSticky hs]
      by_cases hn : n.optionName? = some name
      · simp [hs, hn]
      · simp [hs, hn, ih]

/-- The options of a side: those in its first sticky word, and where there is none the
options among its nodes. -/
def sideOptions (side : List Node) : List Node :=
  match side.find? isSticky with
  | some g => g.children
  | none => side.filter isFlag

theorem sideOptions_eq_filter {side : List Node} (h : ∀ n ∈ side, n.kind ≠ .stickyOption) :
    sideOptions side = side.filter isFlag := by
  have hnone : side.find? isSticky = none := by
    rw [List.find?_eq_none]
    intro n hn
    rw [isSticky_iff_kind]
    exact h n hn
  rw [sideOptions, hnone]

theorem find?_isSticky_eq_none {ns : List Node} (h : ∀ n ∈ ns, n.isFlag = true) :
    ns.find? isSticky = none := by
  rw [List.find?_eq_none]
  intro n hn
  rw [isSticky_eq_false_of_isFlag (h n hn)]
  exact Bool.false_ne_true

/-- In a well-formed sticky word stand options, all of which a scan yields. -/
theorem WellFormed.isFlag_of_mem_children {g c : Node} (hg : g.WellFormed)
    (hs : g.isSticky = true) (hc : c ∈ g.children) : c.isFlag = true ∧ c.span.FitsIn g.span := by
  cases g with
  | sticky s w os =>
    obtain ⟨-, hrules, -⟩ := hg
    exact ⟨isFlag_of_isOption (hrules.isOption c hc), hrules.fits c hc⟩
  | _ => simp [isSticky] at hs

theorem scanOptions_eq_sideOptions {side : List Node} (h : ∀ n ∈ side, n.WellFormed) :
    scanOptions [] side = sideOptions side := by
  rw [scanOptions_eq, sideOptions]
  cases hg : side.find? isSticky with
  | none => rfl
  | some g =>
    have hwf : g.WellFormed := h g (List.mem_of_find?_eq_some hg)
    have hflags : ∀ c ∈ g.children, c.isFlag = true := by
      intro c hc
      exact (hwf.isFlag_of_mem_children (List.find?_some hg) hc).1
    simp only [scanOptions_eq, find?_isSticky_eq_none hflags, List.nil_append]
    exact List.filter_eq_self.mpr hflags

/-- What is among the options of a side fits in one of its nodes. -/
theorem exists_fitsIn_of_mem_sideOptions {side : List Node} (h : ∀ n ∈ side, n.WellFormed)
    {m : Node} (hm : m ∈ sideOptions side) : ∃ n ∈ side, m.span.FitsIn n.span := by
  rw [sideOptions] at hm
  cases hg : side.find? isSticky with
  | none =>
    rw [hg] at hm
    have hmem := List.mem_of_mem_filter hm
    obtain ⟨hne, -, -⟩ := h m hmem
    exact ⟨m, hmem, hne, le_refl _, le_refl _⟩
  | some g =>
    rw [hg] at hm
    have hmem := List.mem_of_find?_eq_some hg
    exact ⟨g, hmem, ((h g hmem).isFlag_of_mem_children (List.find?_some hg) hm).2⟩

/-- What is found on a side fits in one of its nodes. -/
theorem exists_fitsIn_of_findOption? {side : List Node} (h : ∀ n ∈ side, n.WellFormed)
    {name : String} {m : Node} (hm : findOption? name side = some m) :
    ∃ n ∈ side, m.span.FitsIn n.span := by
  rw [findOption?_eq, Option.or_eq_some_iff] at hm
  rcases hm with hm | ⟨-, hm⟩
  · have hmem := List.takeWhile_subset _ (List.mem_of_find?_eq_some hm)
    obtain ⟨hne, -, -⟩ := h m hmem
    exact ⟨m, hmem, hne, le_refl _, le_refl _⟩
  · obtain ⟨g, hg, hm⟩ := Option.bind_eq_some_iff.mp hm
    have hmem := List.mem_of_find?_eq_some hg
    have hgroup {c : Node} (hc : c ∈ g.children) : c.isFlag = true ∧ c.span.FitsIn g.span :=
      (h g hmem).isFlag_of_mem_children (List.find?_some hg) hc
    rw [findOption?_eq, find?_isSticky_eq_none fun c hc => (hgroup hc).1, Option.bind_none,
      Option.or_none] at hm
    have hc := List.takeWhile_subset _ (List.mem_of_find?_eq_some hm)
    exact ⟨g, hmem, (hgroup hc).2⟩

/-! ## The program of a command -/

/-- The program `p` of a command, with the parts `before` and `after` it: all questions
about the program are about `p`, the options of either side are those of its parts, and
what is found on a side lies on that side of the program. -/
structure DividedBy (n : Node) (before : List Node) (p : Program) (after : List Node) : Prop where
  index : n.programIndex? = some before.length
  program : n.commandProgram? = some p
  runs : ∀ name, n.runsProgram name = (p.name == name)
  wrapperOptions : n.wrapperOptions? = some (sideOptions before)
  programOptions : n.programOptions? = some (sideOptions (.program p :: after))
  wrapperOptions_stop : ∀ os, n.wrapperOptions? = some os → ∀ o ∈ os, o.span.stop ≤ p.span.start
  wrapperOption_stop : ∀ name o, n.wrapperOption? name = some o → o.span.stop ≤ p.span.start
  programOptions_start : ∀ os, n.programOptions? = some os → ∀ o ∈ os, p.span.stop ≤ o.span.start
  programOption_start : ∀ name o, n.programOption? name = some o → p.span.stop ≤ o.span.start

/-- A command without a program: questions about it have no answer, and all options
belong to the command. -/
structure Undivided (n : Node) : Prop where
  index : n.programIndex? = none
  program : n.commandProgram? = none
  runs : ∀ name, n.runsProgram name = false
  wrapperOptions : n.wrapperOptions? = some []
  wrapperOption : ∀ name, n.wrapperOption? name = none
  programOptions : n.programOptions? = some (sideOptions n.children)

theorem exists_eq_group_of_kind {n : Node} (h : n.kind = .command) :
    ∃ s, n = group .command s n.children := by
  cases n with
  | group k s ps =>
    cases k with
    | command => exact ⟨s, rfl⟩
    | _ => simp [kind, GroupKind.kind] at h
  | word k w => cases k <;> simp [kind, WordKind.kind] at h
  | _ => simp [kind] at h

theorem exists_eq_program_of_kind {n : Node} (h : n.kind = .program) : ∃ p, n = program p := by
  cases n with
  | program p => exact ⟨p, rfl⟩
  | word k w => cases k <;> simp [kind, WordKind.kind] at h
  | group k s ps => cases k <;> simp [kind, GroupKind.kind] at h
  | _ => simp [kind] at h

section Command

variable {k : GroupKind} {s : Span} {before after : List Node} {p : Program}

theorem program?_eq_none {n : Node} (h : n.isProgram = false) : n.program? = none := by
  cases n with
  | program p => simp [isProgram] at h
  | _ => rfl

/-- Where one part of a command is a program, no other part is. -/
theorem GroupRules.isProgram_eq_false
    (h : GroupRules .command s (before ++ .program p :: after)) :
    (∀ n ∈ before, n.isProgram = false) ∧ ∀ n ∈ after, n.isProgram = false := by
  have hcount := h.programs rfl
  have hp : (Node.program p).isProgram = true := rfl
  rw [List.countP_append, List.countP_cons_of_pos hp] at hcount
  have hbefore : before.countP isProgram = 0 := by omega
  have hafter : after.countP isProgram = 0 := by omega
  rw [List.countP_eq_zero] at hbefore hafter
  simp only [Bool.not_eq_true] at hbefore hafter
  exact ⟨hbefore, hafter⟩

theorem programIndex?_of_program (h : ∀ n ∈ before, n.isProgram = false) :
    (group k s (before ++ .program p :: after)).programIndex? = some before.length := by
  have hnone : before.findIdx? isProgram = none := List.findIdx?_eq_none_iff.mpr h
  simp [programIndex?, children?, List.findIdx?_append, hnone, List.findIdx?_cons, isProgram]

theorem commandProgram?_of_program (h : ∀ n ∈ before, n.isProgram = false) :
    (group k s (before ++ .program p :: after)).commandProgram? = some p := by
  have hnone : before.findSome? program? = none :=
    List.findSome?_eq_none_iff.mpr fun n hn => program?_eq_none (h n hn)
  simp [commandProgram?, children?, List.findSome?_append, hnone, List.findSome?_cons, program?]

theorem wrapperSide?_of_program (h : ∀ n ∈ before, n.isProgram = false) :
    (group k s (before ++ .program p :: after)).wrapperSide? = some before := by
  rw [wrapperSide?, programIndex?_of_program h]
  simp [children?]

theorem programSide?_of_program (h : ∀ n ∈ before, n.isProgram = false) :
    (group .command s (before ++ .program p :: after)).programSide? =
      some (.program p :: after) := by
  rw [programSide?, programIndex?_of_program h]
  simp

theorem findOption?_program_cons (name : String) :
    findOption? name (.program p :: after) = findOption? name after := by
  simp [findOption?, findGrouped?, optionName?]

theorem sideOptions_program_cons : sideOptions (.program p :: after) = sideOptions after := by
  simp [sideOptions, isSticky, isFlag]

/-- The program of a well-formed command divides its parts. -/
theorem dividedBy_of_wellFormed
    (hn : (group .command s (before ++ .program p :: after)).WellFormed) :
    (group .command s (before ++ .program p :: after)).DividedBy before p after := by
  obtain ⟨-, hrules, hparts⟩ := hn
  have hwf : ∀ c ∈ before ++ .program p :: after, c.WellFormed := hparts
  simp only [List.forall_mem_append, List.forall_mem_cons] at hwf
  obtain ⟨hbefore, hp, hafter⟩ := hwf
  have hnone := hrules.isProgram_eq_false.1
  -- the parts are in order, so those on a side lie on that side of the program
  obtain ⟨-, hright, hleft⟩ := List.pairwise_append.mp hrules.ordered
  have hstop : ∀ c ∈ before, c.span.stop ≤ p.span.start := by
    intro c hc
    exact hleft c hc (.program p) List.mem_cons_self
  have hstart : ∀ c ∈ after, p.span.stop ≤ c.span.start := (List.pairwise_cons.mp hright).1
  have hwrapper := scanOptions_eq_sideOptions hbefore
  have hprogram := scanOptions_eq_sideOptions (List.forall_mem_cons.mpr ⟨hp, hafter⟩)
  constructor
  case index => exact programIndex?_of_program hnone
  case program => exact commandProgram?_of_program hnone
  case runs =>
    intro name
    rw [runsProgram, commandProgram?_of_program hnone]
  case wrapperOptions =>
    rw [wrapperOptions?, wrapperSide?_of_program hnone, Option.map_some, hwrapper]
  case programOptions =>
    rw [programOptions?, programSide?_of_program hnone, Option.map_some, hprogram]
  case wrapperOptions_stop =>
    intro os hos o ho
    rw [wrapperOptions?, wrapperSide?_of_program hnone, Option.map_some, hwrapper,
      Option.some.injEq] at hos
    obtain ⟨c, hc, hfit⟩ := exists_fitsIn_of_mem_sideOptions hbefore (hos ▸ ho)
    exact hfit.stop_le.trans (hstop c hc)
  case wrapperOption_stop =>
    intro name o ho
    rw [wrapperOption?, wrapperSide?_of_program hnone, Option.bind_some] at ho
    obtain ⟨c, hc, hfit⟩ := exists_fitsIn_of_findOption? hbefore ho
    exact hfit.stop_le.trans (hstop c hc)
  case programOptions_start =>
    intro os hos o ho
    rw [programOptions?, programSide?_of_program hnone, Option.map_some, hprogram,
      sideOptions_program_cons, Option.some.injEq] at hos
    obtain ⟨c, hc, hfit⟩ := exists_fitsIn_of_mem_sideOptions hafter (hos ▸ ho)
    exact (hstart c hc).trans hfit.start_le
  case programOption_start =>
    intro name o ho
    rw [programOption?, programSide?_of_program hnone, Option.bind_some,
      findOption?_program_cons] at ho
    obtain ⟨c, hc, hfit⟩ := exists_fitsIn_of_findOption? hafter ho
    exact (hstart c hc).trans hfit.start_le

theorem undivided_of_wellFormed {ps : List Node} (hn : (group .command s ps).WellFormed)
    (h : ∀ n ∈ ps, n.isProgram = false) : (group .command s ps).Undivided := by
  obtain ⟨-, -, hparts⟩ := hn
  have hwf : ∀ c ∈ ps, c.WellFormed := hparts
  have hindex : (group .command s ps).programIndex? = none := by
    rw [programIndex?, children?, Option.bind_some]
    exact List.findIdx?_eq_none_iff.mpr h
  have hprogram : (group .command s ps).commandProgram? = none := by
    rw [commandProgram?, children?, Option.bind_some]
    exact List.findSome?_eq_none_iff.mpr fun n hn => program?_eq_none (h n hn)
  have hwrapper : (group .command s ps).wrapperSide? = some [] := by
    rw [wrapperSide?, hindex]
    rfl
  constructor
  case index => exact hindex
  case program => exact hprogram
  case runs =>
    intro name
    rw [runsProgram, hprogram]
  case wrapperOptions =>
    rw [wrapperOptions?, hwrapper, Option.map_some, scanOptions]
  case wrapperOption =>
    intro name
    rw [wrapperOption?, hwrapper, Option.bind_some, findOption?]
  case programOptions =>
    rw [programOptions?, programSide?, hindex]
    simp [scanOptions_eq_sideOptions hwf]

end Command

/-- A command that passes the check has one program at most. If it has one, all questions
about the program are about that one, the options of either side are those that stand
there, in its first sticky word or, if it has none, outside, and whatever a scan of a side
yields lies on that side of the program. If it has none, nothing belongs to a wrapper.
Without a sticky word the options of both sides are all options of the command, in order. -/
theorem program_divides_options {n : Node} (hn : n.check = .ok ()) (hk : n.kind = .command) :
    n.children.countP isProgram ≤ 1 ∧
    (∀ before p after, n.children = before ++ .program p :: after → n.DividedBy before p after) ∧
    ((∀ c ∈ n.children, c.kind ≠ .program) → n.Undivided) ∧
    ((∀ c ∈ n.children, c.kind ≠ .stickyOption) →
      ∃ os os', n.wrapperOptions? = some os ∧ n.programOptions? = some os' ∧
        os ++ os' = n.children.filter fun c => c.kind = .option ∨ c.kind = .optionWithArg) := by
  rw [check_eq_ok_iff] at hn
  obtain ⟨s, heq⟩ := exists_eq_group_of_kind hk
  generalize n.children = ps at heq ⊢
  subst heq
  have hdivided : ∀ before p after, ps = before ++ .program p :: after →
      (group .command s ps).DividedBy before p after := by
    rintro before p after rfl
    exact dividedBy_of_wellFormed hn
  have hundivided : (∀ c ∈ ps, c.kind ≠ .program) → (group .command s ps).Undivided := by
    intro h
    refine undivided_of_wellFormed hn fun c hc => ?_
    rw [← Bool.not_eq_true, isProgram_iff_kind]
    exact h c hc
  refine ⟨?_, hdivided, hundivided, fun hsticky => ?_⟩
  · obtain ⟨-, hrules, -⟩ := hn
    exact hrules.programs rfl
  · simp only [← isFlag_iff_kind, Bool.decide_eq_true]
    by_cases hp : ∃ c ∈ ps, c.kind = .program
    · obtain ⟨c, hc, hkind⟩ := hp
      obtain ⟨p, rfl⟩ := exists_eq_program_of_kind hkind
      obtain ⟨before, after, rfl⟩ := List.append_of_mem hc
      have h := hdivided before p after rfl
      rw [List.forall_mem_append] at hsticky
      refine ⟨_, _, h.wrapperOptions, h.programOptions, ?_⟩
      rw [sideOptions_eq_filter hsticky.1, sideOptions_eq_filter hsticky.2, List.filter_append]
    · have h := hundivided fun c hc hkind => hp ⟨c, hc, hkind⟩
      refine ⟨_, _, h.wrapperOptions, h.programOptions, ?_⟩
      rw [children_group, sideOptions_eq_filter hsticky, List.nil_append]

/-- The tree of `sudo -n apt-get -y -qV install`: an option for the wrapper, and for the
program an option before a sticky word and the two options in it. -/
def aptInstall : Node :=
  .group .command ⟨0, 31⟩
    [.word .superuser ⟨⟨0, 4⟩, "sudo"⟩,
      .option ⟨⟨5, 7⟩, "-n", "-n", none⟩,
      .program ⟨⟨8, 15⟩, "apt-get", "apt-get", none⟩,
      .option ⟨⟨16, 18⟩, "-y", "-y", none⟩,
      .sticky ⟨19, 22⟩ "-qV"
        [.option ⟨⟨20, 21⟩, "q", "-q", none⟩, .option ⟨⟨21, 22⟩, "V", "-V", none⟩],
      .subcommand ⟨⟨23, 31⟩, "install", none⟩]

theorem program_divides_options_aptInstall :
    aptInstall.check = .ok () ∧ aptInstall.kind = .command ∧
      aptInstall.programIndex? = some 2 ∧
      aptInstall.wrapperOptions?.map (List.map optionName?) = some [some "-n"] ∧
      aptInstall.programOptions?.map (List.map optionName?) = some [some "-q", some "-V"] := by
  have hcheck : aptInstall.check = .ok () := rfl
  have hparts : aptInstall.children = aptInstall.children.take 2 ++
      .program ⟨⟨8, 15⟩, "apt-get", "apt-get", none⟩ :: aptInstall.children.drop 3 := rfl
  have hdivided := (program_divides_options hcheck rfl).2.1 _ _ _ hparts
  exact ⟨hcheck, rfl, hdivided.index, by rw [hdivided.wrapperOptions]; rfl,
    by rw [hdivided.programOptions]; rfl⟩

end ShellGloss.Node
