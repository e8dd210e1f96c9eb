import ShellGloss.Proofs.Splice

/-!
# Marking up without styles

The plain painter shows every text as it is, so that marking up gives the source
back wherever a leaf shows what it covers. All leaves do, apart from assignments
and redirects, which are written anew from what is known of them: a redirect
into a file is shown with a space after the operator, in whatever way it is
spelled. The line is therefore the source with these leaves in the spelling that
they are shown in, and it is the source itself when they are spelled so.
-/

namespace ShellGloss

/-! ## Plain texts -/

/-- A redirect as it is shown: descriptor and operator, then the target. -/
def Redirect.plainText (r : Redirect) : String :=
  r.input.elim "" toString ++ r.op.text ++
    match r.output with
    | some w => " " ++ w.word
    | none => r.outputFd.elim "" toString

/-- What a leaf that covers `text` is shown as when nothing is painted. -/
def Node.plainText (text : String) : Node → String
  | assignment a => a.name ++ "=" ++ a.value
  | redirect r => r.plainText
  | _ => text

/-- The gloss on a leaf when nothing is painted. -/
def Node.plainGloss (source : String) (leaf : Node) : Gloss :=
  ⟨leaf.kind, leaf.span, leaf.plainText (leaf.span.slice source), leaf.meaning⟩

/-- The leaf is spelled in the source as it is shown. -/
def Node.IsSpelled (source : String) (leaf : Node) : Prop :=
  leaf.plainText (leaf.span.slice source) = leaf.span.slice source

instance (source : String) (leaf : Node) : Decidable (leaf.IsSpelled source) :=
  inferInstanceAs (Decidable (_ = _))

/-- The leaf is shown neither longer nor shorter than it is in the source. -/
def Node.KeepsLength (source : String) (leaf : Node) : Prop :=
  (leaf.plainText (leaf.span.slice source)).length = (leaf.span.slice source).length

/-- Only assignments and redirects are written anew. -/
theorem Node.plainText_of_kind {text : String} {leaf : Node} (ha : leaf.kind ≠ .assignment)
    (hr : leaf.kind ≠ .redirect) : leaf.plainText text = text := by
  cases leaf with
  | assignment a => exact absurd rfl ha
  | redirect r => exact absurd rfl hr
  | _ => rfl

/-- Only assignments and redirects can be spelled in another way. -/
theorem Node.isSpelled_of_kind {source : String} {leaf : Node} (ha : leaf.kind ≠ .assignment)
    (hr : leaf.kind ≠ .redirect) : leaf.IsSpelled source :=
  plainText_of_kind ha hr

theorem Redirect.paint_plain (r : Redirect) : r.paint .plain = .ok r.plainText := by
  obtain ⟨span, op, input, output, outputFd⟩ := r
  cases input <;> cases output <;> cases outputFd <;> rfl

theorem Node.paint_plain (text : String) (leaf : Node) :
    leaf.paint .plain text = .ok (leaf.plainText text) := by
  cases leaf with
  | redirect r => exact r.paint_plain
  | _ => rfl

/-- Without styles every leaf has its gloss. -/
theorem glosses_plain (source : String) (leaves : List Node) :
    glosses .plain source leaves = .ok (leaves.map (Node.plainGloss source)) := by
  induction leaves with
  | nil => rfl
  | cons leaf leaves ih =>
    rw [glosses] at ih
    rw [glosses, List.mapM_cons, Node.gloss, Node.paint_plain, ih]
    rfl

/-! ## The plain line -/

/-- The source from `start` on comes back exactly when all leaves are spelled as
they are shown, provided that none of them is shown longer or shorter. -/
theorem splice_plain_eq_iff {source : String} {start : Nat} {leaves : List Node}
    (h : LaidOut source.length start leaves) (hlen : ∀ leaf ∈ leaves, leaf.KeepsLength source) :
    (splice source start (leaves.map (Node.plainGloss source))).toList = source.toList.drop start ↔
      ∀ leaf ∈ leaves, leaf.IsSpelled source := by
  induction leaves generalizing start with
  | nil => simp [splice, Span.toList_slice_to_end]
  | cons leaf leaves ih =>
    rw [List.forall_mem_cons] at hlen ⊢
    obtain ⟨hleaf, hleaves⟩ := hlen
    have hstart := h.start_le leaf (by simp)
    have hne := h.nonempty leaf (by simp)
    rw [List.map_cons, splice, String.toList_append, String.toList_append, List.append_assoc,
      Node.plainGloss, Span.drop_eq_slice_append hstart, List.append_cancel_left_eq,
      Span.drop_eq_slice_append hne.le, ← ih h.tail hleaves]
    constructor
    · intro heq
      -- texts of one length at the same place: each is what the source has there
      obtain ⟨htext, hrest⟩ := List.append_inj heq (by
        rw [String.length_toList, String.length_toList]
        exact hleaf)
      exact ⟨String.toList_injective htext, hrest⟩
    · rintro ⟨hspelled, hrest⟩
      rw [hspelled, hrest]

/-- Marking up without styles never fails on leaves that follow one another. -/
theorem markup_plain {source : String} {leaves : List Node}
    (h : LaidOut source.length 0 leaves) :
    markup .plain source leaves = .ok (splice source 0 (leaves.map (Node.plainGloss source))) := by
  rw [markup_eq_splice h, glosses_plain]
  rfl

/-- The line is the source, and no leaf is shown longer or shorter than it is,
exactly when every leaf is spelled as it is shown. -/
theorem markup_plain_eq_source_iff {source : String} {leaves : List Node}
    (h : LaidOut source.length 0 leaves) :
    (∀ leaf ∈ leaves, leaf.IsSpelled source) ↔
      markup .plain source leaves = .ok source ∧ ∀ leaf ∈ leaves, leaf.KeepsLength source := by
  rw [markup_plain h, Except.ok.injEq, ← String.toList_inj]
  constructor
  · intro hspelled
    have hlen : ∀ leaf ∈ leaves, leaf.KeepsLength source := by
      intro leaf hl
      exact congrArg String.length (hspelled leaf hl)
    exact ⟨(splice_plain_eq_iff h hlen).mpr hspelled, hlen⟩
  · rintro ⟨hline, hlen⟩
    exact (splice_plain_eq_iff h hlen).mp hline

/-- A document that was read and checked is always marked up without styles. The
line is the source with every assignment and redirect in the spelling that it is
shown in and all else unchanged. It is the source, and no leaf is shown longer
or shorter than it is, exactly when every leaf is spelled as it is shown; which
is so when there are neither assignments nor redirects. -/
theorem markup_plain_spelled {text : String} {d : Document}
    (hd : Document.readChecked text = .ok d) :
    markup .plain d.source d.tree.leaves =
      .ok (splice d.source 0 (d.tree.leaves.map (Node.plainGloss d.source))) ∧
    ((∀ leaf ∈ d.tree.leaves, leaf.IsSpelled d.source) ↔
      markup .plain d.source d.tree.leaves = .ok d.source ∧
        ∀ leaf ∈ d.tree.leaves, leaf.KeepsLength d.source) ∧
    ((∀ leaf ∈ d.tree.leaves, leaf.kind ≠ .assignment ∧ leaf.kind ≠ .redirect) →
      markup .plain d.source d.tree.leaves = .ok d.source) := by
  have hout := Document.laidOut_leaves (Document.readChecked_eq_ok_iff.mp hd).2
  refine ⟨markup_plain hout, markup_plain_eq_source_iff hout, ?_⟩
  intro hkinds
  have hspelled : ∀ leaf ∈ d.tree.leaves, leaf.IsSpelled d.source := by
    intro leaf hl
    obtain ⟨ha, hr⟩ := hkinds leaf hl
    exact Node.isSpelled_of_kind ha hr
  exact ((markup_plain_eq_source_iff hout).mp hspelled).1

/-- An assignment and a redirect spelled as they are shown. -/
def spelledText : String :=
  "[\"A=1 ls 2> o\",[\"command\",[0,11],[[\"assignment\",[0,3],\"A\",\"1\"]," ++
    "[\"program\",[4,6],\"ls\",\"ls\"],[\"redirect\",[7,11],\">\",2,[[10,11],\"o\"]]]]]"

theorem markup_plain_spelled_redirect :
    ∃ d, Document.readChecked spelledText = .ok d ∧
      (∀ leaf ∈ d.tree.leaves, leaf.IsSpelled d.source) ∧
      markup .plain d.source d.tree.leaves = .ok d.source := by
  have hread : ((Document.readChecked spelledText).toOption.map fun d =>
      decide (∀ leaf ∈ d.tree.leaves, leaf.IsSpelled d.source)) = some true := by
    decide +kernel
  obtain ⟨d, hd, hspelled⟩ := Option.map_eq_some_iff.mp hread
  have hd := eq_ok_of_toOption hd
  have hspelled := of_decide_eq_true hspelled
  exact ⟨d, hd, hspelled, ((markup_plain_spelled hd).2.1.mp hspelled).1⟩

/-- A redirect without a space before its target. -/
def gluedText : String :=
  "[\"ls >o\",[\"command\",[0,5],[[\"program\",[0,2],\"ls\",\"ls\"]," ++
    "[\"redirect\",[3,5],\">\",null,[[4,5],\"o\"]]]]]"

/-- Marking up without styles does not always give the source back: the redirect
is shown with the space that it lacks. -/
theorem markup_plain_glued_redirect :
    ∃ d, Document.readChecked gluedText = .ok d ∧ d.source = "ls >o" ∧
      markup .plain d.source d.tree.leaves = .ok "ls > o" ∧
      markup .plain d.source d.tree.leaves ≠ .ok d.source := by
  have hread : ((Document.readChecked gluedText).toOption.map fun d =>
      (d.source, (markup .plain d.source d.tree.leaves).toOption)) =
        some ("ls >o", some "ls > o") := by
    decide +kernel
  obtain ⟨d, hd, hshown⟩ := Option.map_eq_some_iff.mp hread
  obtain ⟨hsource, hline⟩ := Prod.mk.inj hshown
  have hline := eq_ok_of_toOption hline
  refine ⟨d, eq_ok_of_toOption hd, hsource, hline, ?_⟩
  rw [hline, hsource]
  decide

end ShellGloss
