import ShellGloss.Explanation
import ShellGloss.Proofs.LeafOrder
import ShellGloss.Proofs.Outcomes

/-!
# Marking up is splicing

Marking up goes through a text character by character, with the leaves that are
left and what the first of them has covered so far. When the leaves follow one
another in the text (`LaidOut`, which those of a checked document do), the pieces
that come out are known beforehand: `layout` cuts the text at the ends of the
leaves, without a cursor.

Painting these pieces puts the texts of the glosses between the gaps of the
source (`splice`). So the two ways of showing a document, the line and the
glosses, paint every leaf once and paint the same text.
-/

namespace ShellGloss

/-! ## A gap and a leaf -/

/-- A text as gaps. -/
def gaps (text : String) : List Piece :=
  text.toList.map .gap

/-- Characters before the first leaf are gaps. -/
theorem cut_gaps {leaves : List Node} {pending : String} {gap rest : List Char} {offset : Nat}
    (h : ∀ l ∈ leaves.head?,
      offset + gap.length ≤ l.span.start ∧ l.span.start < l.span.stop) :
    cut leaves offset pending (gap ++ rest) =
      gap.map .gap ++ cut leaves (offset + gap.length) pending rest := by
  -- the first leaf lies ahead of the whole gap, so of every shorter one too
  induction gap generalizing offset with
  | nil => simp
  | cons c gap ih =>
    rw [List.length_cons] at h ⊢
    have hrest : cut leaves (offset + 1) pending (gap ++ rest) =
        gap.map .gap ++ cut leaves (offset + (gap.length + 1)) pending rest := by
      rw [ih (fun l hl => by have := h l hl; omega)]
      congr 2
      omega
    cases leaves with
    | nil => rw [List.cons_append, cut_noLeaves, hrest]; rfl
    | cons leaf leaves =>
      obtain ⟨hstart, hne⟩ := h leaf rfl
      rw [List.cons_append, cut_before (by omega) (by omega), hrest]
      rfl

theorem push_append_ofList (s : String) (c : Char) (cs : List Char) :
    s.push c ++ String.ofList cs = s ++ String.ofList (c :: cs) := by
  apply String.toList_injective
  simp

/-- Characters of the first leaf, up to its end or that of the text, are covered by it. -/
theorem cut_covered {leaf : Node} {leaves : List Node} {pending : String}
    {text rest : List Char} {offset : Nat} (hstart : leaf.span.start ≤ offset)
    (hne : text ≠ []) (hstop : offset + text.length ≤ leaf.span.stop)
    (hend : rest = [] ∨ offset + text.length = leaf.span.stop) :
    cut (leaf :: leaves) offset pending (text ++ rest) =
      .covered leaf (pending ++ String.ofList text) ::
        cut leaves (offset + text.length) "" rest := by
  induction text generalizing offset pending with
  | nil => exact absurd rfl hne
  | cons c text ih =>
    have hlength : offset + (c :: text).length = offset + 1 + text.length := by
      rw [List.length_cons]
      omega
    rw [hlength] at hstop hend ⊢
    rw [List.cons_append, ← push_append_ofList]
    -- the last character flushes what the others have put aside
    cases text with
    | nil =>
      rw [List.nil_append, cut_last hstart (by omega) hend, String.ofList_nil, String.append_empty]
      rfl
    | cons d text =>
      have hmore : 0 < (d :: text).length := by simp
      rw [cut_inside hstart (by omega) (by simp), ih (by omega) (by simp) hstop hend]

/-! ## Leaves that follow one another -/

/-- Leaves follow one another in a text of `length` characters, from the offset
`start` on: none is empty, each starts inside the text and ends before every
later one starts. The last may end outside the text. -/
structure LaidOut (length start : Nat) (leaves : List Node) : Prop where
  nonempty : ∀ l ∈ leaves, l.span.start < l.span.stop
  ordered : leaves.Pairwise fun a b => a.span.stop ≤ b.span.start
  start_le : ∀ l ∈ leaves, start ≤ l.span.start
  start_lt : ∀ l ∈ leaves, l.span.start < length

theorem LaidOut.tail {length start : Nat} {leaf : Node} {leaves : List Node}
    (h : LaidOut length start (leaf :: leaves)) : LaidOut length leaf.span.stop leaves where
  nonempty := fun l hl => h.nonempty l (List.mem_cons_of_mem leaf hl)
  ordered := (List.pairwise_cons.mp h.ordered).2
  start_le := (List.pairwise_cons.mp h.ordered).1
  start_lt := fun l hl => h.start_lt l (List.mem_cons_of_mem leaf hl)

/-- The leaves of a checked document follow one another in its source. -/
theorem Document.laidOut_leaves {d : Document} (hd : d.check = .ok ()) :
    LaidOut d.source.length 0 d.tree.leaves := by
  obtain ⟨htree, hstarts⟩ := check_eq_ok_iff.mp hd
  exact ⟨fun l hl => (Node.leaves_fit htree l hl).nonempty, Node.leaves_ordered htree,
    fun l _ => Nat.zero_le l.span.start, Node.leaves_start_lt htree hstarts⟩

/-- The pieces of the rest of a text, from `start` on: up to each leaf a gap, then
the text that the leaf's span cuts out, and in the end a gap again. -/
def layout (source : String) : Nat → List Node → List Piece
  | start, [] => gaps (Span.slice ⟨min start source.length, source.length⟩ source)
  | start, leaf :: leaves =>
    gaps (Span.slice ⟨start, leaf.span.start⟩ source) ++
      .covered leaf (leaf.span.slice source) :: layout source leaf.span.stop leaves

/-- Cutting the rest of a text along leaves that follow one another gives their layout. -/
theorem cut_eq_layout {source : String} {start : Nat} {leaves : List Node}
    (h : LaidOut source.length start leaves) :
    cut leaves start "" (source.toList.drop start) = layout source start leaves := by
  induction leaves generalizing start with
  | nil =>
    have hgaps : cut [] start "" (source.toList.drop start ++ []) =
        (source.toList.drop start).map .gap ++
          cut [] (start + (source.toList.drop start).length) "" [] :=
      cut_gaps (by simp)
    rw [List.append_nil, cut_nil, List.append_nil] at hgaps
    rw [hgaps, layout, gaps, Span.toList_slice_to_end]
  | cons leaf leaves ih =>
    have hne := h.nonempty leaf (by simp)
    have hstart := h.start_le leaf (by simp)
    have hlt := h.start_lt leaf (by simp)
    have hgap : start + (Span.slice ⟨start, leaf.span.start⟩ source).toList.length =
        leaf.span.start := by
      rw [Span.length_toList_slice]
      omega
    have htext : (leaf.span.slice source).toList.length =
        min leaf.span.stop source.length - leaf.span.start :=
      Span.length_toList_slice _ _ source
    have hnonempty : (leaf.span.slice source).toList ≠ [] := by
      rw [← List.length_pos_iff, htext]
      omega
    -- the leaf ends in the text or takes all that is left of it
    have hend : source.toList.drop leaf.span.stop = [] ∨
        leaf.span.start + (leaf.span.slice source).toList.length = leaf.span.stop := by
      rw [List.drop_eq_nil_iff, String.length_toList]
      omega
    rw [Span.drop_eq_slice_append hstart, Span.drop_eq_slice_append hne.le,
      cut_gaps (by simpa using ⟨hgap.le, hne⟩), hgap,
      cut_covered (le_refl _) hnonempty (by omega) hend, String.ofList_toList, String.empty_append,
      layout, ← ih h.tail]
    rcases hend with hend | hend
    · rw [hend, cut_nil, cut_nil]
      rfl
    · rw [hend]
      rfl

/-- The pieces of a source are the layout of leaves that follow one another in it. -/
theorem pieces_eq_layout {source : String} {leaves : List Node}
    (h : LaidOut source.length 0 leaves) : pieces source leaves = layout source 0 leaves :=
  cut_eq_layout h

/-! ## Painting the pieces -/

/-- A source with glosses in the places of their spans, from the offset `start` on:
before each gloss the text between the spans, and in the end what is left. -/
def splice (source : String) : Nat → List Gloss → String
  | start, [] => Span.slice ⟨min start source.length, source.length⟩ source
  | start, g :: gs =>
    Span.slice ⟨start, g.span.start⟩ source ++ g.text ++ splice source g.span.stop gs

variable {ε : Type}

/-- Pieces painted and joined. -/
def paintPieces (p : Painter ε) (ps : List Piece) : Except ε String := do
  return String.join (← ps.mapM (Piece.paint p))

theorem markup_eq_paintPieces (p : Painter ε) (source : String) (leaves : List Node) :
    markup p source leaves = paintPieces p (pieces source leaves) := rfl

section Paint

variable {p : Painter ε} {source : String}

theorem join_map_singleton (cs : List Char) :
    String.join (cs.map String.singleton) = String.ofList cs := by
  apply String.toList_injective
  simp [String.toList_join, List.flatMap_map]

/-- Gaps are shown as they are. -/
theorem paintPieces_gaps (text : String) : paintPieces p (gaps text) = .ok text := by
  have hgaps : (gaps text).mapM (Piece.paint p) =
      (.ok (text.toList.map String.singleton) : Except ε (List String)) := by
    rw [gaps]
    induction text.toList with
    | nil => rfl
    | cons c cs ih =>
      rw [List.map_cons, List.mapM_cons, ih]
      rfl
  have hjoin : String.join (text.toList.map String.singleton) = text := by
    rw [join_map_singleton, String.ofList_toList]
  rw [paintPieces, hgaps]
  exact congrArg Except.ok hjoin

theorem paintPieces_gaps_append (text : String) (ps : List Piece) :
    paintPieces p (gaps text ++ ps) = (text ++ ·) <$> paintPieces p ps := by
  have happend : paintPieces p (gaps text ++ ps) = do
      let shown ← paintPieces p (gaps text)
      let more ← paintPieces p ps
      return shown ++ more := joinMapM_append (Piece.paint p) (gaps text) ps
  rw [happend, paintPieces_gaps]
  cases paintPieces p ps <;> rfl

/-- A covered text is painted as its leaf. -/
theorem paintPieces_covered_cons (leaf : Node) (text : String) (ps : List Piece) :
    paintPieces p (.covered leaf text :: ps) = do
      let shown ← leaf.paint p text
      let more ← paintPieces p ps
      return shown ++ more :=
  joinMapM_cons (Piece.paint p) (.covered leaf text) ps

/-- Painting a layout puts the glosses in the places of their spans, and fails as the
glosses do. -/
theorem paintPieces_layout (start : Nat) (leaves : List Node) :
    paintPieces p (layout source start leaves) =
      splice source start <$> glosses p source leaves := by
  induction leaves generalizing start with
  | nil => rw [layout, paintPieces_gaps]; rfl
  | cons leaf leaves ih =>
    rw [layout, paintPieces_gaps_append, paintPieces_covered_cons, ih]
    simp only [glosses, List.mapM_cons, Node.gloss]
    -- both sides stop at the first leaf that has no style
    cases leaf.paint p (leaf.span.slice source) with
    | error e => rfl
    | ok text =>
      cases leaves.mapM (Node.gloss p source) with
      | error e => rfl
      | ok gs =>
        exact congrArg Except.ok (String.append_assoc ..).symm

end Paint

/-- Marking up leaves that follow one another splices their glosses into the source,
and fails as the glosses do. -/
theorem markup_eq_splice {source : String} {leaves : List Node}
    (h : LaidOut source.length 0 leaves) (p : Painter ε) :
    markup p source leaves = splice source 0 <$> glosses p source leaves := by
  rw [markup_eq_paintPieces, pieces_eq_layout h, paintPieces_layout]

/-- The explanation of a checked document is made of its glosses alone. -/
theorem Document.explain_eq_splice {d : Document} (hd : d.check = .ok ()) (p : Painter ε) :
    d.explain p =
      (fun gs => ⟨splice d.source 0 gs, gs⟩) <$> glosses p d.source d.tree.leaves := by
  rw [explain, markup_eq_splice (laidOut_leaves hd)]
  cases glosses p d.source d.tree.leaves <;> rfl

/-! ## Glosses -/

/-- A gloss names its leaf and shows what the leaf covers of the source. -/
theorem Node.gloss_eq_ok_iff {p : Painter ε} {source : String} {leaf : Node} {g : Gloss} :
    leaf.gloss p source = .ok g ↔
      leaf.paint p (leaf.span.slice source) = .ok g.text ∧
        g.kind = leaf.kind ∧ g.span = leaf.span ∧ g.meaning = leaf.meaning := by
  rw [gloss]
  cases leaf.paint p (leaf.span.slice source) with
  | error e => simp [bind, Except.bind]
  | ok text =>
    obtain ⟨kind, span, shown, meaning⟩ := g
    simp only [bind, Except.bind, pure, Except.pure, Except.ok.injEq, Gloss.mk.injEq]
    constructor
    · rintro ⟨rfl, rfl, rfl, rfl⟩
      exact ⟨rfl, rfl, rfl, rfl⟩
    · rintro ⟨rfl, rfl, rfl, rfl⟩
      exact ⟨rfl, rfl, rfl, rfl⟩

/-- Whatever painter explains a document that was read and checked: there is one
gloss for each leaf, in order and of its kind and span, whose text is the painted
slice of the source; the line is the source with these texts spliced in; and
marking up came by the slices as well, since its pieces are the gaps and, once
each, the leaves with what they cut out of the source. -/
theorem explain_splices {text : String} {d : Document} (hd : Document.readChecked text = .ok d)
    {p : Painter ε} {e : Explanation} (he : d.explain p = .ok e) :
    List.Forall₂ (fun leaf g => g.kind = leaf.kind ∧ g.span = leaf.span ∧
        leaf.paint p
          (Span.slice ⟨leaf.span.start, min leaf.span.stop d.source.length⟩ d.source) = .ok g.text)
      d.tree.leaves e.glosses ∧
    e.line = splice d.source 0 e.glosses ∧
    pieces d.source d.tree.leaves = layout d.source 0 d.tree.leaves := by
  have hcheck := (Document.readChecked_eq_ok_iff.mp hd).2
  rw [Document.explain_eq_splice hcheck] at he
  cases hg : glosses p d.source d.tree.leaves with
  | error m => simp [hg, Functor.map, Except.map] at he
  | ok gs =>
    obtain rfl : (⟨splice d.source 0 gs, gs⟩ : Explanation) = e := by
      simpa [hg, Functor.map, Except.map] using he
    refine ⟨(mapM_eq_ok_iff.mp hg).imp fun leaf g hgloss => ?_, rfl,
      pieces_eq_layout (Document.laidOut_leaves hcheck)⟩
    obtain ⟨hpaint, hkind, hspan, -⟩ := Node.gloss_eq_ok_iff.mp hgloss
    rw [Span.slice_min_stop]
    exact ⟨hkind, hspan, hpaint⟩

theorem eq_ok_of_toOption {ε α : Type} {x : Except ε α} {a : α} (h : x.toOption = some a) :
    x = .ok a := by
  cases x with
  | error e => cases h
  | ok b => exact congrArg Except.ok (Option.some.inj h)

/-- A document whose last leaf, a redirect, reaches beyond the source. -/
def overrunText : String :=
  "[\"A=1 ls >o\",[\"command\",[0,12],[[\"assignment\",[0,3],\"A\",\"1\"]," ++
    "[\"program\",[4,6],\"ls\",\"ls\"],[\"redirect\",[7,12],\">\",null,[[8,9],\"o\"]]]]]"

/-- A painter that brackets every text. -/
def bracketPainter : Painter :=
  fun _ text => .ok ("[" ++ text ++ "]")

theorem explain_splices_overrun :
    ∃ d e, Document.readChecked overrunText = .ok d ∧ d.explain bracketPainter = .ok e ∧
      e.line = "[A]=[1] [ls] [>] [o]" ∧ e.line = splice d.source 0 e.glosses := by
  have hline : ((Document.readChecked overrunText).toOption.bind fun d =>
      (d.explain bracketPainter).toOption.map Explanation.line) =
        some "[A]=[1] [ls] [>] [o]" := by
    decide +kernel
  obtain ⟨d, hd, hline⟩ := Option.bind_eq_some_iff.mp hline
  obtain ⟨e, he, hline⟩ := Option.map_eq_some_iff.mp hline
  have hd := eq_ok_of_toOption hd
  have he := eq_ok_of_toOption he
  exact ⟨d, e, hd, he, hline, (explain_splices hd he).2.1⟩

end ShellGloss
