import Mathlib.Data.List.Pairwise
import ShellGloss.Node.Leaves
import ShellGloss.Proofs.WellFormed

/-!
# The order of leaves

The leaves of a well-formed tree follow one another in the source, and they are
its terminals, each once and from left to right. Left and right are said of
paths: `placedLeaves` lists every leaf together with the path to it, and the
paths ascend in lexicographic order.

That leaves of different subtrees do not overlap follows from two facts about
the subtrees: the leaves of a tree fit in it (`leaves_fit`), and siblings are in
order (`GroupRules.ordered`).
-/

namespace ShellGloss.Node

/-! ## Terminals -/

/-- The node is neither a group nor a sticky word. -/
def isTerminal : Node → Bool
  | group .. | sticky .. => false
  | program _ | subcommand _ | option _ | optionWithArg _ | assignment _ | redirect _
  | word .. => true

theorem isTerminal_iff_kind {n : Node} :
    n.isTerminal = true ↔ n.kind.isComposite = false ∧ n.kind ≠ .stickyOption := by
  cases n with
  | word k _ => cases k <;> simp [isTerminal, kind, WordKind.kind, Kind.isComposite]
  | group k _ _ => cases k <;> simp [isTerminal, kind, GroupKind.kind, Kind.isComposite]
  | _ => simp [isTerminal, kind, Kind.isComposite]

theorem isTerminal_of_isOption {n : Node} (h : n.isOption = true) : n.isTerminal = true := by
  cases n <;> simp_all [isOption, isTerminal]

/-- A terminal of a tree and the path to it: a node that is reached through parts
and is neither a group nor a sticky word, or an option of a sticky word that is
reached through parts. -/
inductive TerminalAt : Node → List Nat → Node → Prop where
  | here {n : Node} (terminal : n.isTerminal = true) : TerminalAt n [] n
  | grouped {s : Span} {w : String} {os : List Node} {i : Nat} {o : Node}
      (found : os[i]? = some o) (isOption : o.isOption = true) : TerminalAt (sticky s w os) [i] o
  | part {k : GroupKind} {s : Span} {ps : List Node} {i : Nat} {p : Node} {path : List Nat}
      {t : Node} (found : ps[i]? = some p) (below : TerminalAt p path t) :
      TerminalAt (group k s ps) (i :: path) t

theorem TerminalAt.isTerminal {n t : Node} {path : List Nat} (h : n.TerminalAt path t) :
    t.isTerminal = true := by
  induction h with
  | here terminal => exact terminal
  | grouped _ isOption => exact isTerminal_of_isOption isOption
  | part _ _ ih => exact ih

theorem TerminalAt.descend? {n t : Node} {path : List Nat} (h : n.TerminalAt path t) :
    n.descend? path = some t := by
  induction h with
  | here _ => exact descend?_nil _
  | grouped found _ => simp [found]
  | part found _ ih => simpa [found] using ih

/-! ## Leaves with their paths -/

mutual

/-- The leaves of a tree, each with the path to it. -/
def placedLeaves : Node → List (List Nat × Node)
  | group _ _ parts => placedLeavesFrom 0 parts
  | sticky _ _ options => options.zipIdx.map fun (o, i) => ([i], o)
  | n@(program _) | n@(subcommand _) | n@(option _) | n@(optionWithArg _) | n@(assignment _)
  | n@(redirect _) | n@(word ..) => [([], n)]

/-- The leaves of several trees, the first of which stands at place `i`. -/
def placedLeavesFrom (i : Nat) : List Node → List (List Nat × Node)
  | [] => []
  | n :: ns =>
    n.placedLeaves.map (fun (path, leaf) => (i :: path, leaf)) ++ placedLeavesFrom (i + 1) ns

end

theorem placedLeavesFrom_eq_flatMap (ns : List Node) (i : Nat) :
    placedLeavesFrom i ns = (ns.zipIdx i).flatMap fun (n, j) =>
      n.placedLeaves.map fun (path, leaf) => (j :: path, leaf) := by
  induction ns generalizing i with
  | nil => rfl
  | cons n ns ih => rw [placedLeavesFrom, ih, List.zipIdx_cons, List.flatMap_cons]

@[simp] theorem placedLeaves_group (k : GroupKind) (s : Span) (ps : List Node) :
    (group k s ps).placedLeaves = ps.zipIdx.flatMap fun (n, j) =>
      n.placedLeaves.map fun (path, leaf) => (j :: path, leaf) := by
  rw [placedLeaves, placedLeavesFrom_eq_flatMap]

@[simp] theorem placedLeaves_sticky (s : Span) (w : String) (os : List Node) :
    (sticky s w os).placedLeaves = os.zipIdx.map fun (o, i) => ([i], o) := by
  rw [placedLeaves]

theorem placedLeaves_of_isTerminal {n : Node} (h : n.isTerminal = true) :
    n.placedLeaves = [([], n)] := by
  cases n with
  | group _ _ _ => simp [isTerminal] at h
  | sticky _ _ _ => simp [isTerminal] at h
  | _ => rw [placedLeaves]

theorem leaves_of_isTerminal {n : Node} (h : n.isTerminal = true) : n.leaves = [n] := by
  cases n with
  | group _ _ _ => simp [isTerminal] at h
  | sticky _ _ _ => simp [isTerminal] at h
  | _ => rw [leaves]

/-- Induction over a tree that takes all terminals as one case. -/
theorem induct_terminal {motive : Node → Prop}
    (terminal : ∀ n, n.isTerminal = true → motive n)
    (sticky : ∀ s w os, motive (.sticky s w os))
    (group : ∀ k s ps, (∀ p ∈ ps, motive p) → motive (.group k s ps)) (n : Node) : motive n := by
  induction n with
  | sticky s w os => exact sticky s w os
  | group k s ps ih => exact group k s ps ih
  | _ => exact terminal _ rfl

/-- Without the paths, the listed leaves are the leaves. -/
theorem map_snd_placedLeaves (n : Node) : n.placedLeaves.map Prod.snd = n.leaves := by
  induction n using induct_terminal with
  | terminal n h => simp [placedLeaves_of_isTerminal h, leaves_of_isTerminal h]
  | sticky s w os =>
    rw [placedLeaves_sticky, leaves_sticky, List.map_map]
    exact List.zipIdx_map_fst 0 os
  | group k s ps ih =>
    rw [leaves_group, placedLeaves, placedLeavesFrom_eq_flatMap]
    -- the place at which the parts begin moves along with the list
    generalize 0 = i
    induction ps generalizing i with
    | nil => rfl
    | cons p ps ihps =>
      have hp : p.placedLeaves.map Prod.snd = p.leaves := ih p (by simp)
      have hps := ihps (fun q hq => ih q (by simp [hq])) (i + 1)
      rw [List.zipIdx_cons, List.flatMap_cons, List.flatMap_cons, List.map_append, hps,
        List.map_map, ← hp]
      rfl

/-- The paths of the leaves ascend. -/
theorem pairwise_placedLeaves (n : Node) : n.placedLeaves.Pairwise fun a b => a.1 < b.1 := by
  have hindex (l : List Node) : l.zipIdx.Pairwise fun a b => a.2 < b.2 := by
    rw [List.pairwise_iff_getElem]
    intro i j hi hj hij
    simpa using hij
  induction n using induct_terminal with
  | terminal n h => simp [placedLeaves_of_isTerminal h]
  | sticky s w os =>
    rw [placedLeaves_sticky, List.pairwise_map]
    exact (hindex os).imp fun {a b} hab => by simpa [List.cons_lt_cons_iff] using hab
  | group k s ps ih =>
    rw [placedLeaves_group, List.pairwise_flatMap]
    constructor
    -- paths into one part begin alike, paths into two parts differ at once
    · rintro ⟨p, i⟩ hp
      have hmem : p ∈ ps := List.mem_of_getElem? (List.mk_mem_zipIdx_iff_getElem?.mp hp)
      rw [List.pairwise_map]
      exact (ih p hmem).imp fun {a b} hab => by simpa [List.cons_lt_cons_iff] using hab
    · refine (hindex ps).imp fun {a b} hab => ?_
      intro x hx y hy
      obtain ⟨_, _, rfl⟩ := List.mem_map.mp hx
      obtain ⟨_, _, rfl⟩ := List.mem_map.mp hy
      exact List.cons_lt_cons_iff.mpr (.inl hab)

/-- The leaves of a well-formed tree are its terminals, path for path. -/
theorem mem_placedLeaves_iff {n : Node} (hn : n.WellFormed) {path : List Nat} {leaf : Node} :
    (path, leaf) ∈ n.placedLeaves ↔ n.TerminalAt path leaf := by
  induction n using induct_terminal generalizing path with
  | terminal n h =>
    rw [placedLeaves_of_isTerminal h, List.mem_singleton, Prod.mk.injEq]
    constructor
    · rintro ⟨rfl, rfl⟩
      exact .here h
    · intro ht
      cases ht with
      | here _ => exact ⟨rfl, rfl⟩
      | grouped _ _ => simp [isTerminal] at h
      | part _ _ => simp [isTerminal] at h
  | sticky s w os =>
    obtain ⟨-, hrules, -⟩ := hn
    rw [placedLeaves_sticky, List.mem_map]
    constructor
    · rintro ⟨⟨o, i⟩, ho, heq⟩
      obtain ⟨rfl, rfl⟩ := Prod.mk.inj heq
      have hfound := List.mk_mem_zipIdx_iff_getElem?.mp ho
      exact .grouped hfound (hrules.isOption o (List.mem_of_getElem? hfound))
    · intro ht
      cases ht with
      | here h => simp [isTerminal] at h
      | grouped found _ => exact ⟨_, List.mk_mem_zipIdx_iff_getElem?.mpr found, rfl⟩
  | group k s ps ih =>
    obtain ⟨-, -, hparts⟩ := hn
    simp only [placedLeaves_group, List.mem_flatMap, List.mem_map]
    constructor
    · rintro ⟨⟨p, i⟩, hp, ⟨rest, leaf⟩, hleaf, heq⟩
      obtain ⟨rfl, rfl⟩ := Prod.mk.inj heq
      have hfound := List.mk_mem_zipIdx_iff_getElem?.mp hp
      have hmem := List.mem_of_getElem? hfound
      exact .part hfound ((ih p hmem (hparts p hmem)).mp hleaf)
    · intro ht
      cases ht with
      | here h => simp [isTerminal] at h
      | part found below =>
        have hmem := List.mem_of_getElem? found
        exact ⟨_, List.mk_mem_zipIdx_iff_getElem?.mpr found, _,
          (ih _ hmem (hparts _ hmem)).mpr below, rfl⟩

/-- Every leaf of a well-formed tree is a terminal at some path. -/
theorem exists_terminalAt {n leaf : Node} (hn : n.WellFormed) (hl : leaf ∈ n.leaves) :
    ∃ path, n.TerminalAt path leaf := by
  rw [← map_snd_placedLeaves, List.mem_map] at hl
  obtain ⟨⟨path, leaf⟩, hmem, rfl⟩ := hl
  exact ⟨path, (mem_placedLeaves_iff hn).mp hmem⟩

/-! ## Leaves in the source -/

/-- The leaves of a well-formed tree fit in it. -/
theorem leaves_fit {n : Node} (hn : n.WellFormed) : ∀ l ∈ n.leaves, l.span.FitsIn n.span := by
  induction n using induct_terminal with
  | terminal n h =>
    rw [leaves_of_isTerminal h, List.forall_mem_singleton]
    obtain ⟨hne, -, -⟩ := hn
    exact ⟨hne, le_refl _, le_refl _⟩
  | sticky s w os =>
    obtain ⟨-, hrules, -⟩ := hn
    rw [leaves_sticky]
    exact hrules.fits
  | group k s ps ih =>
    obtain ⟨-, hrules, hparts⟩ := hn
    rw [leaves_group]
    intro l hl
    obtain ⟨p, hp, hl⟩ := List.mem_flatMap.mp hl
    exact (ih p hp (hparts p hp) l hl).trans (hrules.fits p hp)

/-- Any leaf of a well-formed tree ends before every later one starts. -/
theorem leaves_ordered {n : Node} (hn : n.WellFormed) :
    n.leaves.Pairwise fun a b => a.span.stop ≤ b.span.start := by
  induction n using induct_terminal with
  | terminal n h => simp [leaves_of_isTerminal h]
  | sticky s w os =>
    obtain ⟨-, hrules, -⟩ := hn
    rw [leaves_sticky]
    exact hrules.ordered
  | group k s ps ih =>
    obtain ⟨-, hrules, hparts⟩ := hn
    rw [leaves_group, List.pairwise_flatMap]
    refine ⟨fun p hp => ih p hp (hparts p hp), ?_⟩
    -- leaves of two parts are apart because they fit in their parts
    refine hrules.ordered.imp_of_mem fun {p q} hp hq hpq => ?_
    intro a ha b hb
    have ha := (leaves_fit (hparts p hp) a ha).stop_le
    have hb := (leaves_fit (hparts q hq) b hb).start_le
    omega

/-- The leaves of a tree whose spans start inside the source do so. -/
theorem leaves_start_lt {n : Node} (hn : n.WellFormed) {length : Nat}
    (hs : n.StartsBelow length) : ∀ l ∈ n.leaves, l.span.start < length := by
  intro l hl
  obtain ⟨path, ht⟩ := exists_terminalAt hn hl
  exact hs path l ht.descend? l.span l.span_mem_spans

/-- All leaves but the last end inside the source: the next one starts there. -/
theorem leaves_stop_lt {n : Node} (hn : n.WellFormed) {length : Nat}
    (hs : n.StartsBelow length) : ∀ l ∈ n.leaves.dropLast, l.span.stop < length := by
  intro l hl
  have hne : n.leaves ≠ [] := by
    intro h
    simp [h] at hl
  have hlast := leaves_start_lt hn hs _ (List.getLast_mem hne)
  have hbefore := (leaves_ordered hn).rel_dropLast_getLast hl
  omega

/-- An offset lies in one leaf of a well-formed tree at most. -/
theorem leaf_at_unique {n : Node} (hn : n.WellFormed) {i j offset : Nat} {a b : Node}
    (hi : n.leaves[i]? = some a) (hj : n.leaves[j]? = some b)
    (ha : a.span.contains offset = true) (hb : b.span.contains offset = true) : i = j := by
  rw [Span.contains_iff] at ha hb
  obtain ⟨hilt, rfl⟩ := List.getElem?_eq_some_iff.mp hi
  obtain ⟨hjlt, rfl⟩ := List.getElem?_eq_some_iff.mp hj
  have hordered := List.pairwise_iff_getElem.mp (leaves_ordered hn)
  rcases Nat.lt_trichotomy i j with hij | rfl | hij
  · have := hordered i j hilt hjlt hij
    omega
  · rfl
  · have := hordered j i hjlt hilt hij
    omega

/-- The leaves of a tree that passes the check are an ordered, disjoint and
complete sequence: each fits in the tree, each ends before every later one
starts, so that no two share an offset, none is a group or a sticky word, and
they are the terminals of the tree in the order of ascending paths, once each.
If the tree passes the check against a source as well, every leaf starts inside
the source, and every leaf but the last ends inside it. -/
theorem leaves_of_checked {n : Node} (hn : n.check = .ok ()) :
    (∀ l ∈ n.leaves, l.span.start < l.span.stop ∧
      n.span.start ≤ l.span.start ∧ l.span.stop ≤ n.span.stop) ∧
    n.leaves.Pairwise (fun a b => a.span.stop ≤ b.span.start) ∧
    (∀ (i j offset : Nat) (a b : Node), n.leaves[i]? = some a → n.leaves[j]? = some b →
      a.span.contains offset = true → b.span.contains offset = true → i = j) ∧
    (∀ l ∈ n.leaves, l.kind ∉ [Kind.command, .list, .pipeline, .stickyOption]) ∧
    (∃ placed : List (List Nat × Node), placed.map Prod.snd = n.leaves ∧
      placed.Pairwise (fun a b => a.1 < b.1) ∧
      ∀ path l, (path, l) ∈ placed ↔ n.TerminalAt path l) ∧
    ∀ length, n.checkStarts length = .ok () →
      (∀ l ∈ n.leaves, l.span.start < length) ∧
      ∀ l ∈ n.leaves.dropLast, l.span.stop < length := by
  rw [check_eq_ok_iff] at hn
  refine ⟨fun l hl => ?_, leaves_ordered hn, fun _ _ _ _ _ => leaf_at_unique hn, fun l hl => ?_,
    ⟨n.placedLeaves, map_snd_placedLeaves n, pairwise_placedLeaves n,
      fun _ _ => mem_placedLeaves_iff hn⟩, fun length hs => ?_⟩
  · have hfit := leaves_fit hn l hl
    exact ⟨hfit.nonempty, hfit.start_le, hfit.stop_le⟩
  · obtain ⟨path, ht⟩ := exists_terminalAt hn hl
    obtain ⟨hcomposite, hsticky⟩ := isTerminal_iff_kind.mp ht.isTerminal
    cases hk : l.kind <;> simp_all [Kind.isComposite]
  · rw [checkStarts_eq_ok_iff] at hs
    exact ⟨leaves_start_lt hn hs, leaves_stop_lt hn hs⟩

/-- The tree of `ls -la | wc`, its last word reaching beyond the source: a pipeline
of a command with a sticky word and a list in a list. -/
def lsIntoWc : Node :=
  .group .pipeline ⟨0, 14⟩
    [.group .command ⟨0, 6⟩
      [.program ⟨⟨0, 2⟩, "ls", "ls", none⟩,
        .sticky ⟨3, 6⟩ "-la"
          [.option ⟨⟨4, 5⟩, "l", "-l", none⟩, .option ⟨⟨5, 6⟩, "a", "-a", none⟩]],
      .word .pipe ⟨⟨7, 8⟩, "|"⟩,
      .group .list ⟨9, 14⟩ [.group .command ⟨9, 14⟩ [.program ⟨⟨9, 13⟩, "wc", "wc", none⟩]]]

theorem leaves_of_checked_lsIntoWc :
    lsIntoWc.check = .ok () ∧ lsIntoWc.checkStarts 11 = .ok () ∧
      lsIntoWc.leaves.map (·.span) = [⟨0, 2⟩, ⟨4, 5⟩, ⟨5, 6⟩, ⟨7, 8⟩, ⟨9, 13⟩] ∧
      (∀ l ∈ lsIntoWc.leaves, l.span.start < 11) ∧
      ∀ l ∈ lsIntoWc.leaves.dropLast, l.span.stop < 11 := by
  have hcheck : lsIntoWc.check = .ok () := rfl
  have hstarts : lsIntoWc.checkStarts 11 = .ok () := rfl
  obtain ⟨-, -, -, -, -, hsource⟩ := leaves_of_checked hcheck
  exact ⟨hcheck, hstarts, rfl, hsource 11 hstarts⟩

end ShellGloss.Node
