import ShellGloss.Log
import ShellGloss.Node.Paint

/-!
# Marking up a source text

A source text is cut along a list of leaves: `cut` yields, in the order of the
text, characters that belong to no leaf and the texts that leaves cover. Marking
up paints the latter and keeps the former.

The list of leaves need not be in order. A leaf that comes up when its span has
been passed is stale, and is skipped. A leaf that reaches beyond the text covers
what there is.
-/

namespace ShellGloss

variable {ε : Type}

/-- What a text is cut into. -/
inductive Piece where
  /-- A character that belongs to no leaf. -/
  | gap (char : Char)
  /-- A leaf and the text that it covers. -/
  | covered (leaf : Node) (text : String)
  /-- A leaf that comes up at `offset` and ends there or before. -/
  | stale (leaf : Node) (offset : Nat)
deriving Repr

namespace Piece

/-- A piece as it is shown. -/
def paint (p : Painter ε) : Piece → Except ε String
  | gap c => .ok (String.singleton c)
  | covered leaf text => leaf.paint p text
  | stale .. => .ok ""

/-- The piece takes a leaf from the list. -/
def takesLeaf : Piece → Bool
  | gap _ => false
  | covered .. | stale .. => true

/-- What is noted of a piece. -/
def record? : Piece → Option Log.Record
  | stale leaf offset =>
    some ⟨.warn, "skipping leaf " ++ leaf.kind.name ++ " " ++ leaf.span.render
      ++ " ending before offset " ++ toString offset⟩
  | gap _ | covered .. => none

end Piece

/-- The leaf ends at the offset or before. -/
def Node.isStale (offset : Nat) (leaf : Node) : Bool :=
  leaf.span.stop ≤ offset

@[simp] theorem Node.isStale_iff {offset : Nat} {leaf : Node} :
    leaf.isStale offset = true ↔ leaf.span.stop ≤ offset := by
  simp [isStale]

@[simp] theorem Node.isStale_eq_false_iff {offset : Nat} {leaf : Node} :
    leaf.isStale offset = false ↔ offset < leaf.span.stop := by
  simp [isStale]

/-- Cuts the rest of a text, which starts at `offset`, along the leaves that are
left. `pending` is what the first of them has covered so far. -/
def cut (leaves : List Node) (offset : Nat) (pending : String) : List Char → List Piece
  | [] => []
  | c :: rest =>
    (leaves.takeWhile (Node.isStale offset)).map (.stale · offset) ++
      match leaves.dropWhile (Node.isStale offset) with
      | [] => .gap c :: cut [] (offset + 1) pending rest
      | leaf :: more =>
        if leaf.span.contains offset then
          if rest.isEmpty || offset + 1 = leaf.span.stop then
            .covered leaf (pending.push c) :: cut more (offset + 1) "" rest
          else cut (leaf :: more) (offset + 1) (pending.push c) rest
        else .gap c :: cut (leaf :: more) (offset + 1) pending rest

/-! ## What one character does -/

section Cut

variable {leaf : Node} {leaves : List Node} {offset : Nat} {pending : String} {c : Char}
  {rest : List Char}

theorem cut_nil : cut leaves offset pending [] = [] := by
  rw [cut]

/-- Without leaves a character is a gap. -/
theorem cut_noLeaves :
    cut [] offset pending (c :: rest) = .gap c :: cut [] (offset + 1) pending rest := by
  simp [cut]

/-- A leaf that comes up too late is taken away before the character is looked at. -/
theorem cut_stale (h : leaf.span.stop ≤ offset) :
    cut (leaf :: leaves) offset pending (c :: rest) =
      .stale leaf offset :: cut leaves offset pending (c :: rest) := by
  have hstale : leaf.isStale offset = true := Node.isStale_iff.mpr h
  simp [cut, hstale]

/-- A character before the first leaf is a gap. -/
theorem cut_before (hstart : offset < leaf.span.start) (hstop : offset < leaf.span.stop) :
    cut (leaf :: leaves) offset pending (c :: rest) =
      .gap c :: cut (leaf :: leaves) (offset + 1) pending rest := by
  have hfresh : leaf.isStale offset = false := Node.isStale_eq_false_iff.mpr hstop
  have hout : leaf.span.contains offset = false := Span.contains_eq_false_iff.mpr (.inl hstart)
  simp [cut, hfresh, hout]

/-- A character of the first leaf ends it when nothing follows in the leaf or in the text. -/
theorem cut_last (hstart : leaf.span.start ≤ offset) (hstop : offset < leaf.span.stop)
    (hlast : rest = [] ∨ offset + 1 = leaf.span.stop) :
    cut (leaf :: leaves) offset pending (c :: rest) =
      .covered leaf (pending.push c) :: cut leaves (offset + 1) "" rest := by
  have hfresh : leaf.isStale offset = false := Node.isStale_eq_false_iff.mpr hstop
  have hin : leaf.span.contains offset = true := Span.contains_iff.mpr ⟨hstart, hstop⟩
  have hend : (rest.isEmpty || decide (offset + 1 = leaf.span.stop)) = true := by
    simpa using hlast
  simp [cut, hfresh, hin, hend]

/-- Any other character of the first leaf is kept until the leaf ends. -/
theorem cut_inside (hstart : leaf.span.start ≤ offset) (hstop : offset + 1 < leaf.span.stop)
    (hrest : rest ≠ []) :
    cut (leaf :: leaves) offset pending (c :: rest) =
      cut (leaf :: leaves) (offset + 1) (pending.push c) rest := by
  have hlt : offset < leaf.span.stop := Nat.lt_of_succ_lt hstop
  have hfresh : leaf.isStale offset = false := Node.isStale_eq_false_iff.mpr hlt
  have hin : leaf.span.contains offset = true := Span.contains_iff.mpr ⟨hstart, hlt⟩
  have hend : (rest.isEmpty || decide (offset + 1 = leaf.span.stop)) = false := by
    simpa [Nat.ne_of_lt hstop] using hrest
  simp [cut, hfresh, hin, hend]

end Cut

/-! ## A whole text -/

/-- The pieces of a source text. -/
def pieces (source : String) (leaves : List Node) : List Piece :=
  cut leaves 0 "" source.toList

/-- The source text with every leaf painted. -/
def markup (p : Painter ε) (source : String) (leaves : List Node) : Except ε String := do
  let shown ← (pieces source leaves).mapM (Piece.paint p)
  return String.join shown

/-- The painter can show a piece. -/
def Piece.isShown (p : Painter ε) (piece : Piece) : Bool :=
  (piece.paint p).isOk

/-- What is noted while a text is marked up: every stale leaf, as far as the work
goes, and the end of the work. -/
def markupRecords (p : Painter ε) (source : String) (leaves : List Node) : List Log.Record :=
  let all := pieces source leaves
  let shown := all.takeWhile (Piece.isShown p)
  shown.filterMap Piece.record? ++
    if all.all (Piece.isShown p) then
      [⟨.trace, "highlighted " ++ toString (all.countP Piece.takesLeaf) ++ " leaves over "
        ++ toString source.length ++ " chars"⟩]
    else []

end ShellGloss
