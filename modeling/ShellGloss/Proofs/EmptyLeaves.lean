import ShellGloss.Proofs.Segments

/-!
# Empty leaves

A leaf whose span is empty or reversed covers no character, so marking up never paints it.
It still takes part: as long as its end has not been passed, the leaves behind it are not
looked at. Without it they come up at once, and those of them that are stale by then are
skipped, so the two runs are out of step.

The line is the same all the same, if no leaf behind starts before the empty one ends. Up
to that end both runs copy the characters (`visible_cut_ahead`), and what one of them has
skipped by then the other skips there (`visible_cut_dropWhile`). What comes before the
empty leaf in the list may be anything, since lists of leaves that show every text alike
do so behind a leaf as well (`ShowAlike.cons`).
-/

namespace ShellGloss

/-! ## What is seen of the pieces -/

/-- The piece can be seen in the line: it is not a leaf that was skipped. -/
def Piece.isVisible : Piece → Bool
  | gap _ | covered .. => true
  | stale .. => false

/-- The pieces that can be seen in the line. -/
def visible (ps : List Piece) : List Piece :=
  ps.filter Piece.isVisible

@[simp] theorem visible_gap_cons (c : Char) (ps : List Piece) :
    visible (.gap c :: ps) = .gap c :: visible ps := rfl

@[simp] theorem visible_covered_cons (leaf : Node) (text : String) (ps : List Piece) :
    visible (.covered leaf text :: ps) = .covered leaf text :: visible ps := rfl

@[simp] theorem visible_stale_cons (leaf : Node) (offset : Nat) (ps : List Piece) :
    visible (.stale leaf offset :: ps) = visible ps := rfl

/-- The line is made of the pieces that can be seen. -/
theorem paintPieces_visible {ε : Type} (p : Painter ε) (ps : List Piece) :
    paintPieces p (visible ps) = paintPieces p ps := by
  have hcons (piece : Piece) (ps : List Piece) : paintPieces p (piece :: ps) = do
      let shown ← piece.paint p
      let more ← paintPieces p ps
      return shown ++ more := joinMapM_cons (Piece.paint p) piece ps
  induction ps with
  | nil => rfl
  | cons piece ps ih =>
    cases piece with
    | gap c => rw [visible_gap_cons, hcons, hcons, ih]
    | covered leaf text => rw [visible_covered_cons, hcons, hcons, ih]
    | stale leaf offset =>
      rw [visible_stale_cons, hcons, ih]
      cases paintPieces p ps with
      | error e => rfl
      | ok line => exact congrArg Except.ok String.empty_append.symm

/-! ## Lists of leaves that show texts alike -/

/-- The two lists of leaves show every text alike, from any offset on and whatever has
been covered so far. -/
def ShowAlike (leaves leaves' : List Node) : Prop :=
  ∀ offset pending text,
    visible (cut leaves offset pending text) = visible (cut leaves' offset pending text)

section Cut

variable {leaf : Node} {leaves leaves' : List Node} {first offset : Nat} {pending : String}
  {c : Char} {rest : List Char}

theorem ShowAlike.cons (h : ShowAlike leaves leaves') (leaf : Node) :
    ShowAlike (leaf :: leaves) (leaf :: leaves') := by
  intro offset pending text
  -- while the leaf is there both runs do the same, and when it is gone `h` takes over
  induction text generalizing offset pending with
  | nil => rw [cut_nil, cut_nil]
  | cons c rest ih =>
    rcases Nat.lt_or_ge offset leaf.span.stop with hstop | hstale
    · rcases Nat.lt_or_ge offset leaf.span.start with hstart | hstart
      · rw [cut_before hstart hstop, cut_before hstart hstop, visible_gap_cons, visible_gap_cons,
          ih]
      · by_cases hlast : rest = [] ∨ offset + 1 = leaf.span.stop
        · rw [cut_last hstart hstop hlast, cut_last hstart hstop hlast, visible_covered_cons,
            visible_covered_cons, h]
        · obtain ⟨hrest, hne⟩ := not_or.mp hlast
          have hinside : offset + 1 < leaf.span.stop := by omega
          rw [cut_inside hstart hinside hrest, cut_inside hstart hinside hrest, ih]
    · rw [cut_stale hstale, cut_stale hstale, visible_stale_cons, visible_stale_cons, h]

theorem ShowAlike.append_left (h : ShowAlike leaves leaves') (before : List Node) :
    ShowAlike (before ++ leaves) (before ++ leaves') := by
  induction before with
  | nil => exact h
  | cons leaf before ih => exact ih.cons leaf

/-- Leaves that are stale at an offset may be skipped there or later. -/
theorem visible_cut_dropWhile (h : first ≤ offset) (leaves : List Node) (text : List Char) :
    visible (cut (leaves.dropWhile (Node.isStale first)) offset pending text) =
      visible (cut leaves offset pending text) := by
  cases text with
  | nil => rw [cut_nil, cut_nil]
  | cons c rest =>
    induction leaves with
    | nil => rfl
    | cons leaf leaves ih =>
      cases hstale : leaf.isStale first with
      | false => rw [List.dropWhile_cons_of_neg (by simp [hstale])]
      | true =>
        have hstop : leaf.span.stop ≤ offset := (Node.isStale_iff.mp hstale).trans h
        rw [List.dropWhile_cons_of_pos hstale, ih, cut_stale hstop, visible_stale_cons]

/-- A character before all leaves is copied, and the leaves may be taken as they were. -/
theorem visible_cut_ahead (h : ∀ l ∈ leaves, offset < l.span.start) :
    visible (cut leaves offset pending (c :: rest)) =
      .gap c :: visible (cut leaves (offset + 1) pending rest) := by
  rw [← visible_cut_dropWhile (Nat.le_refl offset) leaves (c :: rest),
    ← visible_cut_dropWhile (Nat.le_succ offset) leaves rest]
  cases hfresh : leaves.dropWhile (Node.isStale offset) with
  | nil => rw [cut_noLeaves, visible_gap_cons]
  | cons leaf more =>
    have hleaf : leaf ∈ leaves := by
      refine (List.dropWhile_suffix (Node.isStale offset)).subset ?_
      rw [hfresh]
      exact List.mem_cons_self
    have hstop : offset < leaf.span.stop := by
      have hhead := List.head?_dropWhile_not (Node.isStale offset) leaves
      rw [hfresh] at hhead
      exact Node.isStale_eq_false_iff.mp (by simpa using hhead)
    rw [cut_before (h leaf hleaf) hstop, visible_gap_cons]

/-- An empty leaf makes no difference in front of leaves that start where it ends or later. -/
theorem showAlike_of_empty (hempty : leaf.span.stop ≤ leaf.span.start)
    (hafter : ∀ l ∈ leaves, leaf.span.stop ≤ l.span.start) :
    ShowAlike (leaf :: leaves) leaves := by
  intro offset pending text
  -- out of step up to the end of the leaf, and from there on in step
  induction text generalizing offset with
  | nil => rw [cut_nil, cut_nil]
  | cons c rest ih =>
    rcases Nat.lt_or_ge offset leaf.span.stop with hahead | hstale
    · rw [cut_before (hahead.trans_le hempty) hahead, visible_gap_cons, ih,
        visible_cut_ahead fun l hl => hahead.trans_le (hafter l hl)]
    · rw [cut_stale hstale, visible_stale_cons]

end Cut

/-! ## What is painted -/

/-- A step covers text by a leaf only if the leaf is not empty. -/
theorem Cursor.Step.start_lt_stop {source : String} {leaves : List Node} {st st' : Cursor}
    {leaf : Node} {text : String}
    (h : Step source leaves st (some (.covered leaf text)) st') :
    leaf.span.start < leaf.span.stop := by
  cases h with
  | flush here next covered inLeaf last => exact covered.trans_lt inLeaf

theorem Cursor.Run.start_lt_stop {source : String} {leaves : List Node} {st last : Cursor}
    {ps : List Piece} {leaf : Node} {text : String} (h : Run source leaves st ps last)
    (hmem : .covered leaf text ∈ ps) : leaf.span.start < leaf.span.stop := by
  induction h with
  | done st => cases hmem
  | @step st mid last piece ps hstep hrest ih =>
    rcases List.mem_append.mp hmem with hpiece | hmem
    · obtain rfl : piece = some (.covered leaf text) := Option.mem_toList.mp hpiece
      exact hstep.start_lt_stop
    · exact ih hmem

/-- Only leaves that are not empty are painted, whatever the leaves are. -/
theorem start_lt_stop_of_covered {source : String} {leaves : List Node} {leaf : Node}
    {text : String} (h : .covered leaf text ∈ pieces source leaves) :
    leaf.span.start < leaf.span.stop := by
  have hstart : Cursor.start.offset ≤ source.length := Nat.zero_le _
  obtain ⟨last, hrun, -⟩ := Cursor.exists_run leaves hstart
  rw [Cursor.remaining_start] at hrun
  exact hrun.start_lt_stop h

/-- A leaf whose span is empty or reversed may be left out, if no leaf behind it in the list
starts before it ends: the line is the same, or fails for the same reason, whatever that may
be. The leaf itself is never painted. Otherwise the leaves may overlap, come in any order,
and be empty or reversed themselves. -/
theorem markup_without_empty {ε : Type} (p : Painter ε) (source : String)
    (before after : List Node) (leaf : Node) (hempty : leaf.span.stop ≤ leaf.span.start)
    (hafter : ∀ l ∈ after, leaf.span.stop ≤ l.span.start) :
    markup p source (before ++ [leaf] ++ after) = markup p source (before ++ after) ∧
      ∀ text, .covered leaf text ∉ pieces source (before ++ [leaf] ++ after) := by
  constructor
  · have halike : ShowAlike (before ++ [leaf] ++ after) (before ++ after) := by
      rw [List.append_assoc]
      exact (showAlike_of_empty hempty hafter).append_left before
    rw [markup_eq_paintPieces, markup_eq_paintPieces, ← paintPieces_visible,
      ← paintPieces_visible p (pieces source (before ++ after)), pieces, pieces, halike]
  · intro text hcovered
    exact absurd (start_lt_stop_of_covered hcovered) (Nat.not_lt.mpr hempty)

/-- A leaf that is reversed. -/
def reversedLeaf : Node :=
  .word .operator ⟨⟨6, 4⟩, ""⟩

/-- Leaves that start where the reversed one ends or later: one that is stale as soon as it
comes up, one that covers something, and one that comes up too late for it. -/
def leavesFromFour : List Node :=
  [.word .word ⟨⟨7, 2⟩, ""⟩, .word .argument ⟨⟨5, 7⟩, "fg"⟩, .word .word ⟨⟨4, 5⟩, "e"⟩]

theorem markup_without_empty_reversed :
    reversedLeaf.span.stop ≤ reversedLeaf.span.start ∧
      (∀ l ∈ leavesFromFour, reversedLeaf.span.stop ≤ l.span.start) ∧
      markup bracketPainter "abcdefgh" ([.word .word ⟨⟨1, 2⟩, "b"⟩, .word .pipe ⟨⟨5, 0⟩, ""⟩] ++
        [reversedLeaf] ++ leavesFromFour) = .ok "a[b]cde[fg]h" := by
  have hempty : reversedLeaf.span.stop ≤ reversedLeaf.span.start := by decide
  have hafter : ∀ l ∈ leavesFromFour, reversedLeaf.span.stop ≤ l.span.start := by decide
  obtain ⟨hsame, -⟩ := markup_without_empty bracketPainter "abcdefgh"
    [.word .word ⟨⟨1, 2⟩, "b"⟩, .word .pipe ⟨⟨5, 0⟩, ""⟩] leavesFromFour reversedLeaf hempty hafter
  refine ⟨hempty, hafter, ?_⟩
  rw [hsame]
  decide +kernel

/-- A leaf that starts before the empty one ends may be lost behind it. -/
example : markup bracketPainter "ab" ([.word .word ⟨⟨1, 1⟩, ""⟩] ++ [.word .word ⟨⟨0, 1⟩, "a"⟩]) =
      .ok "ab" ∧
    markup bracketPainter "ab" [.word .word ⟨⟨0, 1⟩, "a"⟩] = .ok "[a]b" := by
  decide +kernel

end ShellGloss
