import ShellGloss.Proofs.PlainMarkup

/-!
# Marking up loses nothing

What marking up does to a source when nothing is known of the leaves: they may overlap,
be out of order, empty or reversed, or lie outside the source.

The work is a loop over the characters of the source. `Cursor` is its state and
`Cursor.Step` what it does next, which is tied to `cut` by one equation (`cut_of_step`).
Every step keeps that what is held back is a part of the source which the next leaf
covers and goes beyond (`Cursor.Holds`). So nothing is held back where a character is
copied, nor in the end, and the steps cut the source into consecutive segments, each of
which is copied or shown as one leaf (`Shown`); a run does so because its steps do.
-/

namespace ShellGloss

theorem drop_eq_cons {α : Type} {l : List α} {i : Nat} {a : α} (h : l[i]? = some a) :
    l.drop i = a :: l.drop (i + 1) := by
  obtain ⟨hi, rfl⟩ := List.getElem?_eq_some_iff.mp h
  exact List.drop_eq_getElem_cons hi

theorem lt_length_of_getElem? {source : String} {i : Nat} {c : Char}
    (h : source.toList[i]? = some c) : i < source.length := by
  obtain ⟨hi, -⟩ := List.getElem?_eq_some_iff.mp h
  rwa [String.length_toList] at hi

theorem Span.slice_empty (i : Nat) (source : String) : slice ⟨i, i⟩ source = "" := by
  apply String.toList_injective
  simp [toList_slice, length]

theorem Span.slice_one {source : String} {i : Nat} {c : Char} (h : source.toList[i]? = some c) :
    slice ⟨i, i + 1⟩ source = String.singleton c := by
  apply String.toList_injective
  simp [toList_slice, length, drop_eq_cons h]

/-- One character more. -/
theorem Span.slice_push {first i : Nat} (h : first ≤ i) {source : String} {c : Char}
    (hc : source.toList[i]? = some c) :
    (slice ⟨first, i⟩ source).push c = slice ⟨first, i + 1⟩ source := by
  rw [← slice_append h (Nat.le_succ i), slice_one hc]
  apply String.toList_injective
  simp

/-! ## The loop -/

/-- How far the work has come: the place of the leaf that is next, the offset of the
character that is next, and what that leaf has covered so far. -/
structure Cursor where
  place : Nat
  offset : Nat
  pending : String

namespace Cursor

/-- Nothing has been done. -/
def start : Cursor :=
  ⟨0, 0, ""⟩

variable {source : String} {leaves : List Node}

/-- What is done next, and the piece that it yields: a leaf that comes up too late is
skipped, a character that the next leaf does not cover is copied, and one that it covers
is held back or, at the end of the leaf or of the source, flushed. -/
inductive Step (source : String) (leaves : List Node) : Cursor → Option Piece → Cursor → Prop where
  | skip {k i : Nat} {t : String} {c : Char} {leaf : Node} (here : source.toList[i]? = some c)
      (next : leaves[k]? = some leaf) (stale : leaf.span.stop ≤ i) :
      Step source leaves ⟨k, i, t⟩ (some (.stale leaf i)) ⟨k + 1, i, t⟩
  | copy {k i : Nat} {t : String} {c : Char} (here : source.toList[i]? = some c)
      (ahead : ∀ leaf ∈ leaves[k]?, i < leaf.span.start ∧ i < leaf.span.stop) :
      Step source leaves ⟨k, i, t⟩ (some (.gap c)) ⟨k, i + 1, t⟩
  | hold {k i : Nat} {t : String} {c : Char} {leaf : Node} (here : source.toList[i]? = some c)
      (next : leaves[k]? = some leaf) (covered : leaf.span.start ≤ i)
      (inLeaf : i + 1 < leaf.span.stop) (inSource : i + 1 < source.length) :
      Step source leaves ⟨k, i, t⟩ none ⟨k, i + 1, t.push c⟩
  | flush {k i : Nat} {t : String} {c : Char} {leaf : Node} (here : source.toList[i]? = some c)
      (next : leaves[k]? = some leaf) (covered : leaf.span.start ≤ i) (inLeaf : i < leaf.span.stop)
      (last : i + 1 = source.length ∨ i + 1 = leaf.span.stop) :
      Step source leaves ⟨k, i, t⟩ (some (.covered leaf (t.push c))) ⟨k + 1, i + 1, ""⟩

/-- Any number of steps, and the pieces that they yield. -/
inductive Run (source : String) (leaves : List Node) : Cursor → List Piece → Cursor → Prop where
  | done (st : Cursor) : Run source leaves st [] st
  | step {st mid last : Cursor} {piece : Option Piece} {ps : List Piece}
      (first : Step source leaves st piece mid) (rest : Run source leaves mid ps last) :
      Run source leaves st (piece.toList ++ ps) last

/-- The pieces that are still to come. -/
def remaining (source : String) (leaves : List Node) (st : Cursor) : List Piece :=
  cut (leaves.drop st.place) st.offset st.pending (source.toList.drop st.offset)

theorem remaining_start : start.remaining source leaves = pieces source leaves := rfl

/-- The step is the one that cutting takes. -/
theorem remaining_of_step {st st' : Cursor} {piece : Option Piece}
    (h : Step source leaves st piece st') :
    st.remaining source leaves = piece.toList ++ st'.remaining source leaves := by
  cases h with
  | skip here next stale =>
    simp only [remaining, drop_eq_cons here, drop_eq_cons next, cut_stale stale]
    rfl
  | @copy k i t c here ahead =>
    simp only [remaining, drop_eq_cons here]
    cases hnext : leaves[k]? with
    | none =>
      rw [List.drop_eq_nil_iff.mpr (List.getElem?_eq_none_iff.mp hnext), cut_noLeaves]
      rfl
    | some leaf =>
      obtain ⟨hstart, hstop⟩ := ahead leaf hnext
      rw [drop_eq_cons hnext, cut_before hstart hstop]
      rfl
  | @hold k i t c leaf here next covered inLeaf inSource =>
    have hrest : source.toList.drop (i + 1) ≠ [] := by
      rw [Ne, List.drop_eq_nil_iff, String.length_toList]
      exact Nat.not_le.mpr inSource
    simp only [remaining, drop_eq_cons here, drop_eq_cons next,
      cut_inside covered inLeaf hrest]
    rfl
  | @flush k i t c leaf here next covered inLeaf last =>
    have hlast : source.toList.drop (i + 1) = [] ∨ i + 1 = leaf.span.stop := by
      rw [List.drop_eq_nil_iff, String.length_toList]
      exact last.imp (fun h => h.ge) id
    simp only [remaining, drop_eq_cons here, drop_eq_cons next, cut_last covered inLeaf hlast]
    rfl

/-- Whatever is reached, what has been yielded and what cutting goes on to yield is all. -/
theorem Run.remaining {st last : Cursor} {ps : List Piece} (h : Run source leaves st ps last) :
    st.remaining source leaves = ps ++ last.remaining source leaves := by
  induction h with
  | done st => rfl
  | step hstep hrest ih => rw [remaining_of_step hstep, ih, List.append_assoc]

/-- Before the end of the source there is always a step to take. -/
theorem exists_step (leaves : List Node) {st : Cursor} (h : st.offset < source.length) :
    ∃ piece st', Step source leaves st piece st' := by
  obtain ⟨k, i, t⟩ := st
  have hlt : i < source.toList.length := by rwa [String.length_toList]
  have hc : source.toList[i]? = some source.toList[i] := List.getElem?_eq_getElem hlt
  cases hnext : leaves[k]? with
  | none => exact ⟨_, _, .copy hc (by simp [hnext])⟩
  | some leaf =>
    rcases Nat.lt_or_ge i leaf.span.stop with hstop | hstale
    · rcases Nat.lt_or_ge i leaf.span.start with hstart | hstart
      · exact ⟨_, _, .copy hc (by simp [hnext, hstart, hstop])⟩
      · by_cases hlast : i + 1 = source.length ∨ i + 1 = leaf.span.stop
        · exact ⟨_, _, .flush hc hnext hstart hstop hlast⟩
        · have hsource : i + 1 < source.length := by
            change i < source.length at h
            omega
          exact ⟨_, _, .hold hc hnext hstart (by omega) hsource⟩
    · exact ⟨_, _, .skip hc hnext hstale⟩

/-- Every step brings the end of the source or that of the leaves nearer. -/
theorem Step.measure_lt {st st' : Cursor} {piece : Option Piece}
    (h : Step source leaves st piece st') :
    (source.length - st'.offset) + (leaves.length - st'.place) <
      (source.length - st.offset) + (leaves.length - st.place) := by
  have hleaves {k : Nat} {leaf : Node} (hl : leaves[k]? = some leaf) : k < leaves.length := by
    obtain ⟨hk, -⟩ := List.getElem?_eq_some_iff.mp hl
    exact hk
  cases h with
  | skip here next stale => have := hleaves next; dsimp only; omega
  | copy here ahead => have := lt_length_of_getElem? here; dsimp only; omega
  | hold here next covered inLeaf inSource => have := lt_length_of_getElem? here; dsimp only; omega
  | flush here next covered inLeaf last => have := lt_length_of_getElem? here; dsimp only; omega

/-- Steps can be taken until the end of the source is reached, and yield what is still
to come. -/
theorem exists_run (leaves : List Node) {st : Cursor} (h : st.offset ≤ source.length) :
    ∃ last, Run source leaves st (st.remaining source leaves) last ∧
      last.offset = source.length := by
  induction hm : (source.length - st.offset) + (leaves.length - st.place)
    using Nat.strongRecOn generalizing st with
  | ind m ih =>
    rcases Nat.lt_or_eq_of_le h with hlt | heq
    · obtain ⟨piece, mid, hstep⟩ := exists_step leaves hlt
      have hmid : mid.offset ≤ source.length := by
        cases hstep with
        | skip => exact h
        | copy here ahead => exact lt_length_of_getElem? here
        | hold here next covered inLeaf inSource => exact lt_length_of_getElem? here
        | flush here next covered inLeaf last => exact lt_length_of_getElem? here
      obtain ⟨last, hrun, hend⟩ := ih _ (hm ▸ hstep.measure_lt) hmid rfl
      rw [remaining_of_step hstep]
      exact ⟨last, .step hstep hrun, hend⟩
    · have hnil : source.toList.drop st.offset = [] := by
        rw [List.drop_eq_nil_iff, String.length_toList]
        exact heq.ge
      rw [remaining, hnil, cut_nil]
      exact ⟨st, .done st, heq⟩

/-! ## What is held back -/

/-- What is held back is the source from `first` on. If it is not nothing, the next leaf
covers it and goes on, and so does the source. -/
structure Holds (source : String) (leaves : List Node) (first : Nat) (st : Cursor) : Prop where
  first_le : first ≤ st.offset
  pending : st.pending = Span.slice ⟨first, st.offset⟩ source
  covered : first < st.offset → ∃ leaf, leaves[st.place]? = some leaf ∧
    leaf.span.start ≤ first ∧ st.offset < leaf.span.stop ∧ st.offset < source.length

theorem holds_start : Holds source leaves 0 start where
  first_le := Nat.le_refl 0
  pending := (Span.slice_empty 0 source).symm
  covered := fun h => absurd h (Nat.lt_irrefl 0)

/-- Nothing is held back at the place where the held part begins. -/
theorem holds_nothing {k i : Nat} : Holds source leaves i ⟨k, i, ""⟩ where
  first_le := Nat.le_refl i
  pending := (Span.slice_empty i source).symm
  covered := fun h => absurd h (Nat.lt_irrefl i)

theorem Holds.pending_eq_empty {first : Nat} {st : Cursor} (h : Holds source leaves first st)
    (hfirst : first = st.offset) : st.pending = "" := by
  rw [h.pending, hfirst, Span.slice_empty]

theorem Holds.eq_offset_of_end {first : Nat} {st : Cursor} (h : Holds source leaves first st)
    (hend : st.offset = source.length) : first = st.offset := by
  rcases Nat.lt_or_eq_of_le h.first_le with hlt | heq
  · obtain ⟨leaf, -, -, -, hsource⟩ := h.covered hlt
    omega
  · exact heq

/-- Nothing is held back before a character that the next leaf does not cover. -/
theorem Holds.eq_offset_of_ahead {first k i : Nat} {t : String}
    (h : Holds source leaves first ⟨k, i, t⟩)
    (ahead : ∀ leaf ∈ leaves[k]?, i < leaf.span.start ∧ i < leaf.span.stop) : first = i := by
  rcases Nat.lt_or_eq_of_le h.first_le with hlt | heq
  · obtain ⟨leaf, hleaf, hstart, -, -⟩ := h.covered hlt
    have hi := (ahead leaf hleaf).1
    change first < i at hlt
    omega
  · exact heq

/-- Nothing is held back for a leaf that comes up too late. -/
theorem Holds.eq_offset_of_stale {first k i : Nat} {t : String} {leaf : Node}
    (h : Holds source leaves first ⟨k, i, t⟩) (next : leaves[k]? = some leaf)
    (stale : leaf.span.stop ≤ i) : first = i := by
  rcases Nat.lt_or_eq_of_le h.first_le with hlt | heq
  · obtain ⟨leaf', hleaf, -, hstop, -⟩ := h.covered hlt
    obtain rfl : leaf = leaf' := Option.some.inj (next.symm.trans hleaf)
    change i < leaf.span.stop at hstop
    omega
  · exact heq

/-- A leaf that covers the next character covers what is held back. -/
theorem Holds.start_le {first k i : Nat} {t : String} {leaf : Node}
    (h : Holds source leaves first ⟨k, i, t⟩) (next : leaves[k]? = some leaf)
    (covered : leaf.span.start ≤ i) : leaf.span.start ≤ first := by
  rcases Nat.lt_or_eq_of_le h.first_le with hlt | heq
  · obtain ⟨leaf', hleaf, hstart, -, -⟩ := h.covered hlt
    obtain rfl : leaf = leaf' := Option.some.inj (next.symm.trans hleaf)
    exact hstart
  · change first = i at heq
    omega

end Cursor

/-! ## Segments -/

/-- A part of a source, and the leaf that it is shown as with the place of the leaf in a
list, if it is not copied. -/
structure Segment where
  span : Span
  leaf : Option (Nat × Node)

/-- A segment as it is shown. -/
def Segment.paint {ε : Type} (p : Painter ε) (source : String) (g : Segment) : Except ε String :=
  match g.leaf with
  | none => .ok (g.span.slice source)
  | some (_, leaf) => leaf.paint p (g.span.slice source)

/-- The segments follow one another from `first` to `stop`, and none is empty. -/
def Tiles (first : Nat) : List Segment → Nat → Prop
  | [], stop => first = stop
  | g :: gs, stop => g.span.start = first ∧ first < g.span.stop ∧ Tiles g.span.stop gs stop

/-- The segment is copied, or it is shown as a leaf of the list which covers it and ends
where it does, or beyond the end of the source. -/
def Segment.Fits (source : String) (leaves : List Node) (g : Segment) : Prop :=
  ∀ k leaf, g.leaf = some (k, leaf) → leaves[k]? = some leaf ∧
    leaf.span.start ≤ g.span.start ∧ g.span.stop = min leaf.span.stop source.length

theorem Tiles.append {first mid stop : Nat} {gs gs' : List Segment} (h : Tiles first gs mid)
    (h' : Tiles mid gs' stop) : Tiles first (gs ++ gs') stop := by
  induction gs generalizing first with
  | nil =>
    obtain rfl : first = mid := h
    exact h'
  | cons g gs ih =>
    obtain ⟨hstart, hne, hrest⟩ := h
    exact ⟨hstart, hne, ih hrest⟩

/-- The pieces show the source from `first` to `stop` by way of the segments, whatever
painter they are shown by, and take the leaves for it from the places `k` to `k' - 1`. -/
structure Shown (source : String) (leaves : List Node) (k first : Nat) (ps : List Piece)
    (k' stop : Nat) (gs : List Segment) : Prop where
  tiles : Tiles first gs stop
  fits : ∀ g ∈ gs, g.Fits source leaves
  places : ∀ l ∈ gs.filterMap Segment.leaf, k ≤ l.1 ∧ l.1 < k'
  ascending : (gs.filterMap Segment.leaf).Pairwise fun a b => a.1 < b.1
  paint : ∀ {ε : Type} (p : Painter ε), paintPieces p ps = joinMapM (Segment.paint p source) gs

section Shown

variable {source : String} {leaves : List Node}

theorem Shown.nil (k first : Nat) : Shown source leaves k first [] k first [] where
  tiles := rfl
  fits := List.forall_mem_nil _
  places := List.forall_mem_nil _
  ascending := .nil
  paint := fun _ => rfl

theorem Shown.append {k k' k'' first mid stop : Nat} {ps ps' : List Piece} {gs gs' : List Segment}
    (h : Shown source leaves k first ps k' mid gs)
    (h' : Shown source leaves k' mid ps' k'' stop gs')
    (hk : k ≤ k') (hk' : k' ≤ k'') :
    Shown source leaves k first (ps ++ ps') k'' stop (gs ++ gs') where
  tiles := h.tiles.append h'.tiles
  fits := List.forall_mem_append.mpr ⟨h.fits, h'.fits⟩
  places := by
    rw [List.filterMap_append, List.forall_mem_append]
    refine ⟨fun l hl => ?_, fun l hl => ?_⟩
    · have := h.places l hl
      omega
    · have := h'.places l hl
      omega
  ascending := by
    rw [List.filterMap_append, List.pairwise_append]
    refine ⟨h.ascending, h'.ascending, fun a ha b hb => ?_⟩
    have := (h.places a ha).2
    have := (h'.places b hb).1
    omega
  paint := by
    intro ε p
    have hpieces : paintPieces p (ps ++ ps') = _ := joinMapM_append (Piece.paint p) ps ps'
    rw [hpieces, joinMapM_append, ← h.paint p, ← h'.paint p]
    rfl

/-- One step shows one segment or none. -/
theorem Cursor.Step.shown {first : Nat} {st st' : Cursor} {piece : Option Piece}
    (h : Step source leaves st piece st') (hst : Holds source leaves first st) :
    st.place ≤ st'.place ∧ ∃ first' gs, Holds source leaves first' st' ∧
      Shown source leaves st.place first piece.toList st'.place first' gs := by
  cases h with
  | @skip k i t c leaf here next stale =>
    obtain rfl : first = i := hst.eq_offset_of_stale next stale
    obtain rfl : t = "" := hst.pending_eq_empty rfl
    refine ⟨Nat.le_succ k, first, [], holds_nothing, ?_⟩
    exact ⟨rfl, List.forall_mem_nil _, List.forall_mem_nil _, .nil, fun _ => rfl⟩
  | @copy k i t c here ahead =>
    obtain rfl : first = i := hst.eq_offset_of_ahead ahead
    obtain rfl : t = "" := hst.pending_eq_empty rfl
    refine ⟨Nat.le_refl k, first + 1, [⟨⟨first, first + 1⟩, none⟩], holds_nothing, ?_⟩
    constructor
    case tiles => exact ⟨rfl, Nat.lt_succ_self first, rfl⟩
    case fits => simp [Segment.Fits]
    case places => exact List.forall_mem_nil _
    case ascending => exact .nil
    case paint =>
      intro ε p
      have hcopied : Segment.paint p source ⟨⟨first, first + 1⟩, none⟩ =
          .ok (String.singleton c) := by
        rw [Segment.paint, Span.slice_one here]
      rw [joinMapM_cons, hcopied]
      exact joinMapM_cons (Piece.paint p) (.gap c) []
  | @hold k i t c leaf here next covered inLeaf inSource =>
    refine ⟨Nat.le_refl k, first, [], ?_, Shown.nil k first⟩
    constructor
    case first_le => exact Nat.le_succ_of_le hst.first_le
    case pending =>
      have ht : t = Span.slice ⟨first, i⟩ source := hst.pending
      rw [ht, Span.slice_push hst.first_le here]
    case covered =>
      intro _
      exact ⟨leaf, next, hst.start_le next covered, inLeaf, inSource⟩
  | @flush k i t c leaf here next covered inLeaf last =>
    have hfirst : first ≤ i := hst.first_le
    have hsource := lt_length_of_getElem? here
    refine ⟨Nat.le_succ k, i + 1, [⟨⟨first, i + 1⟩, some (k, leaf)⟩], holds_nothing, ?_⟩
    constructor
    case tiles => exact ⟨rfl, Nat.lt_succ_of_le hfirst, rfl⟩
    case fits =>
      rw [List.forall_mem_singleton]
      rintro _ _ ⟨⟩
      refine ⟨next, hst.start_le next covered, ?_⟩
      dsimp only
      omega
    case places =>
      intro l hl
      obtain rfl : l = (k, leaf) := by simpa using hl
      exact ⟨Nat.le_refl k, Nat.lt_succ_self k⟩
    case ascending => exact List.pairwise_singleton _ _
    case paint =>
      intro ε p
      have ht : t = Span.slice ⟨first, i⟩ source := hst.pending
      have hpainted : Segment.paint p source ⟨⟨first, i + 1⟩, some (k, leaf)⟩ =
          leaf.paint p (t.push c) := by
        rw [Segment.paint, ht, Span.slice_push hfirst here]
      rw [joinMapM_cons, hpainted]
      exact joinMapM_cons (Piece.paint p) (.covered leaf (t.push c)) []

/-- So a run shows the source, up to what is held back in the end. -/
theorem Cursor.Run.shown {first : Nat} {st last : Cursor} {ps : List Piece}
    (h : Run source leaves st ps last) (hst : Holds source leaves first st) :
    st.place ≤ last.place ∧ ∃ first' gs, Holds source leaves first' last ∧
      Shown source leaves st.place first ps last.place first' gs := by
  induction h generalizing first with
  | done st => exact ⟨Nat.le_refl _, first, [], hst, Shown.nil st.place first⟩
  | step hstep hrest ih =>
    obtain ⟨hplace, mid, gs, hmid, hshown⟩ := hstep.shown hst
    obtain ⟨hplace', first', gs', hlast, hshown'⟩ := ih hmid
    exact ⟨hplace.trans hplace', first', gs ++ gs', hlast, hshown.append hshown' hplace hplace'⟩

end Shown

/-! ## The whole source -/

/-- What the segments cover is the source between their ends. -/
theorem Tiles.join_slices {source : String} {first stop : Nat} {gs : List Segment}
    (h : Tiles first gs stop) :
    first ≤ stop ∧
      String.join (gs.map fun g => g.span.slice source) = Span.slice ⟨first, stop⟩ source := by
  induction gs generalizing first with
  | nil =>
    obtain rfl : first = stop := h
    exact ⟨Nat.le_refl first, (Span.slice_empty first source).symm⟩
  | cons g gs ih =>
    obtain ⟨hstart, hne, hrest⟩ := h
    obtain ⟨hle, hjoin⟩ := ih hrest
    refine ⟨hne.le.trans hle, ?_⟩
    have hspan : g.span = ⟨first, g.span.stop⟩ := by rw [← hstart]
    rw [List.map_cons, String.join_cons, hjoin, hspan, Span.slice_append hne.le hle]

theorem Span.slice_whole (source : String) : slice ⟨0, source.length⟩ source = source := by
  apply String.toList_injective
  rw [toList_slice, length, ← String.length_toList]
  simp

/-- Segments are shown as they are where nothing is painted and no leaf is written anew. -/
theorem joinMapM_paint_plain {source : String} {leaves : List Node} {gs : List Segment}
    (hfits : ∀ g ∈ gs, g.Fits source leaves)
    (hkinds : ∀ leaf ∈ leaves, leaf.kind ≠ .assignment ∧ leaf.kind ≠ .redirect) :
    joinMapM (Segment.paint .plain source) gs =
      .ok (String.join (gs.map fun g => g.span.slice source)) := by
  induction gs with
  | nil => rfl
  | cons g gs ih =>
    rw [List.forall_mem_cons] at hfits
    obtain ⟨hg, hgs⟩ := hfits
    have hpaint : g.paint .plain source = .ok (g.span.slice source) := by
      obtain ⟨span, leaf⟩ := g
      cases leaf with
      | none => rfl
      | some l =>
        obtain ⟨k, leaf⟩ := l
        obtain ⟨ha, hr⟩ := hkinds leaf (List.mem_of_getElem? (hg k leaf rfl).1)
        have hplain := leaf.paint_plain (span.slice source)
        rwa [Node.plainText_of_kind ha hr] at hplain
    rw [joinMapM_cons, hpaint, ih hgs, List.map_cons, String.join_cons]
    rfl

/-- Marking up loses, doubles and reorders nothing, whatever the leaves are. The source
falls into consecutive segments, none empty, each of which is copied or shown once as a
leaf that covers it and ends where it does, or beyond the end of the source; the places
of these leaves in the list ascend; and for every painter the line is made of the
segments in order, or fails as they do. The loop over the characters ends with nothing
held back, and wherever it comes to, it goes on as cutting does from there and holds
nothing back if it copies a character. Without styles, and with no assignment or redirect
among the leaves, the line is the source. -/
theorem markup_cuts_source (source : String) (leaves : List Node) :
    (∃ gs, Tiles 0 gs source.length ∧ (∀ g ∈ gs, g.Fits source leaves) ∧
      (gs.filterMap Segment.leaf).Pairwise (fun a b => a.1 < b.1) ∧
      ∀ {ε : Type} (p : Painter ε), markup p source leaves = joinMapM (Segment.paint p source) gs) ∧
    (∃ last, Cursor.Run source leaves .start (pieces source leaves) last ∧
      last.offset = source.length ∧ last.pending = "") ∧
    (∀ ps st, Cursor.Run source leaves .start ps st →
      pieces source leaves = ps ++ cut (leaves.drop st.place) st.offset st.pending
        (source.toList.drop st.offset) ∧
      ∀ c st', Cursor.Step source leaves st (some (.gap c)) st' → st.pending = "") ∧
    ((∀ leaf ∈ leaves, leaf.kind ≠ .assignment ∧ leaf.kind ≠ .redirect) →
      markup .plain source leaves = .ok source) := by
  have hstart : Cursor.start.offset ≤ source.length := Nat.zero_le _
  obtain ⟨last, hrun, hend⟩ := Cursor.exists_run leaves hstart
  rw [Cursor.remaining_start] at hrun
  obtain ⟨-, first, gs, hlast, hshown⟩ := hrun.shown Cursor.holds_start
  have hfirst := hlast.eq_offset_of_end hend
  have htiles : Tiles 0 gs source.length := by
    rw [← hend, ← hfirst]
    exact hshown.tiles
  refine ⟨⟨gs, htiles, hshown.fits, hshown.ascending, hshown.paint⟩,
    ⟨last, hrun, hend, hlast.pending_eq_empty hfirst⟩, ?_, ?_⟩
  · intro ps st hreached
    refine ⟨hreached.remaining, fun c st' hcopy => ?_⟩
    obtain ⟨-, first, -, hst, -⟩ := hreached.shown Cursor.holds_start
    cases hcopy with
    | copy here ahead => exact hst.pending_eq_empty (hst.eq_offset_of_ahead ahead)
  · intro hkinds
    rw [markup_eq_paintPieces, hshown.paint, joinMapM_paint_plain hshown.fits hkinds,
      htiles.join_slices.2, Span.slice_whole]

/-- Leaves that overlap, come too late, are reversed and reach beyond the source. -/
def tangledLeaves : List Node :=
  [.word .word ⟨⟨1, 3⟩, "bc"⟩, .word .word ⟨⟨2, 4⟩, "cd"⟩, .word .word ⟨⟨0, 2⟩, "ab"⟩,
    .word .argument ⟨⟨5, 2⟩, ""⟩, .word .operator ⟨⟨5, 18446744073709551615⟩, "f"⟩]

theorem markup_cuts_source_tangled :
    markup bracketPainter "abcdef" tangledLeaves = .ok "a[bc][d]e[f]" ∧
      (∃ gs, Tiles 0 gs 6 ∧
        joinMapM (Segment.paint bracketPainter "abcdef") gs = .ok "a[bc][d]e[f]") ∧
      markup .plain "abcdef" tangledLeaves = .ok "abcdef" := by
  have hline : markup bracketPainter "abcdef" tangledLeaves = .ok "a[bc][d]e[f]" := by
    decide +kernel
  obtain ⟨⟨gs, htiles, -, -, hpaint⟩, -, -, hplain⟩ := markup_cuts_source "abcdef" tangledLeaves
  exact ⟨hline, ⟨gs, htiles, (hpaint bracketPainter).symm.trans hline⟩, hplain (by decide)⟩

end ShellGloss
