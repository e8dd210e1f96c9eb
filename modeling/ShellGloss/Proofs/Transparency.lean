import ShellGloss.Proofs.PlainMarkup
import ShellGloss.Proofs.Runs
import ShellGloss.Proofs.Terminal
import ShellGloss.Proofs.Wording
import ShellGloss.Style.Theme

/-!
# Painting is transparent

A terminal that reads a painted line shows the characters of the line that is not
painted. Each of them is shown in the pen of the run that it belongs to: the style
of the role where the text was painted, the plain pen where it was copied. Nothing
of a style is left when its run has ended.

Runs carry the argument: a painted run takes a terminal with the plain pen to a
terminal with the plain pen (`Run.feed_paint`), and so do several, one after the
other (`feed_paintRuns`).
-/

namespace ShellGloss

/-! ## Runs on a terminal -/

/-- The pen that a theme has for a text in a role, or for a copied one. -/
def Theme.pen (t : Theme) (role : Option Role) : Pen :=
  match role.bind t.style? with
  | some s => s.pen
  | none => .plain

/-- The characters of runs, each with the pen that a theme has for it. -/
def Theme.cells (t : Theme) (rs : List Run) : List (Char × Pen) :=
  rs.flatMap fun r => r.text.toList.map fun c => (c, t.pen r.role)

theorem Theme.cells_cons (t : Theme) (r : Run) (rs : List Run) :
    t.cells (r :: rs) = (r.text.toList.map fun c => (c, t.pen r.role)) ++ t.cells rs :=
  List.flatMap_cons

/-- Whatever the pens, the characters are those of the runs. -/
theorem Theme.map_fst_cells (t : Theme) (rs : List Run) :
    (t.cells rs).map Prod.fst = (String.join (rs.map Run.text)).toList := by
  simp [cells, String.toList_join, List.map_flatMap, List.flatMap_map, Function.comp_def]

section Feed

variable {t : Theme} {shown : List (Char × Pen)} {out : String}

/-- A painted run is shown in its pen, and nothing of its style remains. -/
theorem Run.feed_paint {r : Run} (h : escapeChar ∉ r.text.toList)
    (hr : r.paint (t.painter .shown) = .ok out) :
    Terminal.feed ⟨.text, .plain, shown⟩ out =
      ⟨.text, .plain, shown ++ r.text.toList.map fun c => (c, t.pen r.role)⟩ := by
  obtain ⟨role, text⟩ := r
  cases role with
  | none =>
    obtain rfl : text = out := Except.ok.inj hr
    exact Terminal.feed_text h
  | some role =>
    cases hs : t.style? role with
    | none => simp [paint, Theme.painter, hs] at hr
    | some s =>
      obtain rfl : s.paint .shown text = out := by simpa [paint, Theme.painter, hs] using hr
      rw [Terminal.feed_paint s h]
      simp [Theme.pen, hs]

/-- Painted runs are shown one after the other, each in its pen. -/
theorem feed_paintRuns {rs : List Run} (h : ∀ r ∈ rs, escapeChar ∉ r.text.toList)
    (hrs : paintRuns (t.painter .shown) rs = .ok out) :
    Terminal.feed ⟨.text, .plain, shown⟩ out = ⟨.text, .plain, shown ++ t.cells rs⟩ := by
  induction rs generalizing shown out with
  | nil =>
    obtain rfl : "" = out := Except.ok.inj hrs
    simp [Theme.cells]
  | cons r rs ih =>
    obtain ⟨hr, hmore⟩ := List.forall_mem_cons.mp h
    rw [paintRuns_cons] at hrs
    obtain ⟨first, hpaint, hrs⟩ := bind_eq_ok_iff.mp hrs
    obtain ⟨rest, hpaints, hrs⟩ := bind_eq_ok_iff.mp hrs
    obtain rfl : first ++ rest = out := Except.ok.inj hrs
    -- the first run hands the plain pen on to the others
    rw [Terminal.feed_append, Run.feed_paint hr hpaint, ih hmore hpaints, Theme.cells_cons,
      List.append_assoc]

end Feed

/-! ## Texts without control sequences -/

/-- The texts that a leaf is written with and that are not cut out of the source. -/
def Node.writtenTexts : Node → List String
  | assignment a => [a.name, a.value]
  | redirect r => r.output.toList.map Word.word
  | _ => []

theorem escapeChar_not_mem_slice {source : String} (h : escapeChar ∉ source.toList) (s : Span) :
    escapeChar ∉ (s.slice source).toList := by
  rw [Span.toList_slice]
  intro hmem
  exact h (List.mem_of_mem_drop (List.mem_of_mem_take hmem))

theorem escapeChar_not_mem_descriptorRuns (fd : Option Nat) :
    ∀ r ∈ descriptorRuns fd, escapeChar ∉ r.text.toList := by
  cases fd with
  | none => simp [descriptorRuns]
  | some n =>
    have hdigits := not_mem_toString (c := escapeChar) (by decide) n
    simpa [descriptorRuns, Run.ofKind] using hdigits

theorem Redirect.escapeChar_not_mem_targetRuns {r : Redirect}
    (h : ∀ w ∈ r.output, escapeChar ∉ w.word.toList) :
    ∀ run ∈ r.targetRuns, escapeChar ∉ run.text.toList := by
  rw [targetRuns]
  cases hout : r.output with
  | none => exact escapeChar_not_mem_descriptorRuns r.outputFd
  | some w =>
    have hspace : escapeChar ∉ " ".toList := by decide
    rw [List.forall_mem_cons, List.forall_mem_singleton]
    exact ⟨hspace, h w hout⟩

/-- The runs of a leaf bring in nothing but the text it covers and its own texts. -/
theorem Node.escapeChar_not_mem_runs {leaf : Node} {text : String}
    (htext : escapeChar ∉ text.toList)
    (hwritten : ∀ s ∈ leaf.writtenTexts, escapeChar ∉ s.toList) :
    ∀ r ∈ leaf.runs text, escapeChar ∉ r.text.toList := by
  cases leaf with
  | assignment a =>
    have hequals : escapeChar ∉ "=".toList := by decide
    rw [writtenTexts, List.forall_mem_cons, List.forall_mem_singleton] at hwritten
    rw [runs, List.forall_mem_cons, List.forall_mem_cons, List.forall_mem_singleton]
    exact ⟨hwritten.1, hequals, hwritten.2⟩
  | redirect r =>
    have hop : escapeChar ∉ r.op.text.toList := by cases r.op <;> decide
    have hout : ∀ w ∈ r.output, escapeChar ∉ w.word.toList := by
      intro w hw
      exact hwritten w.word (List.mem_map_of_mem (Option.mem_toList.mpr hw))
    rw [runs, List.forall_mem_append, List.forall_mem_cons]
    exact ⟨escapeChar_not_mem_descriptorRuns r.input, hop, r.escapeChar_not_mem_targetRuns hout⟩
  | _ => simpa [runs, Run.ofKind] using htext

theorem escapeChar_not_mem_lineRuns {source : String} (hsource : escapeChar ∉ source.toList)
    {leaves : List Node}
    (hwritten : ∀ leaf ∈ leaves, ∀ s ∈ leaf.writtenTexts, escapeChar ∉ s.toList) (start : Nat) :
    ∀ r ∈ lineRuns source start leaves, escapeChar ∉ r.text.toList := by
  induction leaves generalizing start with
  | nil =>
    rw [lineRuns, List.forall_mem_singleton]
    exact escapeChar_not_mem_slice hsource _
  | cons leaf leaves ih =>
    obtain ⟨hleaf, hleaves⟩ := List.forall_mem_cons.mp hwritten
    rw [lineRuns, List.forall_mem_cons, List.forall_mem_append]
    exact ⟨escapeChar_not_mem_slice hsource _,
      Node.escapeChar_not_mem_runs (escapeChar_not_mem_slice hsource _) hleaf, ih hleaves _⟩

/-! ## Documents -/

theorem Document.explain_eq_ok_iff {ε : Type} {d : Document} {p : Painter ε} {e : Explanation} :
    d.explain p = .ok e ↔
      markup p d.source d.tree.leaves = .ok e.line ∧
        glosses p d.source d.tree.leaves = .ok e.glosses := by
  obtain ⟨line, gs⟩ := e
  simp only [explain, bind_eq_ok_iff, pure, Except.pure, Except.ok.injEq, Explanation.mk.injEq]
  constructor
  · rintro ⟨_, hline, _, hglosses, rfl, rfl⟩
    exact ⟨hline, hglosses⟩
  · rintro ⟨hline, hglosses⟩
    exact ⟨_, hline, _, hglosses, rfl, rfl⟩

/-- A leaf that is not painted shows the texts of its runs. -/
theorem Node.plainText_eq_join (leaf : Node) (text : String) :
    leaf.plainText text = String.join ((leaf.runs text).map Run.text) := by
  have hplain := leaf.paint_plain text
  rw [paint_eq_paintRuns, paintRuns_plain] at hplain
  exact (Except.ok.inj hplain).symm

/-- Let a document be read and checked, with no control sequence in its source nor in
the texts that its leaves are written with, and let a theme explain it. On a
terminal, the painted line shows the characters of the runs of the document, each in
the pen that the theme has for the role of its run, the copied ones in the plain
pen, and leaves the plain pen behind. The runs are what any painter is asked to
paint for this line, and joined as they are they make up the plain line. The same
holds of the text of every gloss and the runs of its leaf. -/
theorem feed_explain {text : String} {d : Document} (hd : Document.readChecked text = .ok d)
    (hsource : escapeChar ∉ d.source.toList)
    (hwritten : ∀ leaf ∈ d.tree.leaves, ∀ s ∈ leaf.writtenTexts, escapeChar ∉ s.toList)
    {t : Theme} {e : Explanation} (he : d.explain (t.painter .shown) = .ok e) :
    Terminal.start.feed e.line = ⟨.text, .plain, t.cells d.runs⟩ ∧
    (∀ {ε : Type} (p : Painter ε), markup p d.source d.tree.leaves = paintRuns p d.runs) ∧
    List.Forall₂ (fun leaf g =>
        Terminal.start.feed g.text =
          ⟨.text, .plain, t.cells (leaf.runs (leaf.span.slice d.source))⟩ ∧
        ∀ {ε : Type} (p : Painter ε), leaf.paint p (leaf.span.slice d.source) =
          paintRuns p (leaf.runs (leaf.span.slice d.source)))
      d.tree.leaves e.glosses ∧
    ∃ plain, d.explain .plain = .ok plain ∧
      (Terminal.start.feed e.line).shown.map Prod.fst = plain.line.toList ∧
      List.Forall₂ (fun g g' => (Terminal.start.feed g.text).shown.map Prod.fst = g'.text.toList)
        e.glosses plain.glosses := by
  have hcheck := (Document.readChecked_eq_ok_iff.mp hd).2
  obtain ⟨hline, hglosses⟩ := Document.explain_eq_ok_iff.mp he
  have hruns {ε : Type} (p : Painter ε) : markup p d.source d.tree.leaves = paintRuns p d.runs :=
    Document.markup_eq_paintRuns hcheck p
  have hshown : Terminal.start.feed e.line = ⟨.text, .plain, t.cells d.runs⟩ := by
    rw [hruns] at hline
    exact feed_paintRuns (escapeChar_not_mem_lineRuns hsource hwritten 0) hline
  have hleaves : List.Forall₂ (fun leaf g => Terminal.start.feed g.text =
      ⟨.text, .plain, t.cells (leaf.runs (leaf.span.slice d.source))⟩) d.tree.leaves e.glosses := by
    rw [glosses, mapM_eq_ok_iff] at hglosses
    refine ((List.forall₂_and_left (p := (· ∈ d.tree.leaves)) _ _).mpr
      ⟨fun leaf hl => hl, hglosses⟩).imp ?_
    rintro leaf g ⟨hl, hgloss⟩
    have hpaint := (Node.gloss_eq_ok_iff.mp hgloss).1
    rw [Node.paint_eq_paintRuns] at hpaint
    exact feed_paintRuns
      (Node.escapeChar_not_mem_runs (escapeChar_not_mem_slice hsource _) (hwritten leaf hl)) hpaint
  refine ⟨hshown, hruns, hleaves.imp fun leaf g hg => ⟨hg, fun p => leaf.paint_eq_paintRuns _⟩,
    ⟨String.join (d.runs.map Run.text), d.tree.leaves.map (Node.plainGloss d.source)⟩,
    Document.explain_eq_ok_iff.mpr ⟨?_, glosses_plain _ _⟩, ?_, ?_⟩
  · rw [hruns, paintRuns_plain]
  · rw [hshown, Theme.map_fst_cells]
  · rw [List.forall₂_map_right_iff]
    refine .flip (hleaves.imp fun leaf g hg => ?_)
    rw [flip, hg, Theme.map_fst_cells, Node.plainGloss, Node.plainText_eq_join]

/-- A theme with attributes and a color, a color alone, or neither. -/
def mixedTheme : Theme :=
  ⟨fun role => some
    (if role = .kind .program then ⟨.ofList [.bold, .underlined], some (.named .red)⟩
      else if role = .assignmentValue then ⟨.none, some (.rgb 255 136 0)⟩
      else .plain)⟩

theorem feed_explain_mixedTheme :
    ∃ d e, Document.readChecked overrunText = .ok d ∧ escapeChar ∉ d.source.toList ∧
      (∀ leaf ∈ d.tree.leaves, ∀ s ∈ leaf.writtenTexts, escapeChar ∉ s.toList) ∧
      d.explain (mixedTheme.painter .shown) = .ok e ∧
      e.line = "A=\x1b[38;2;255;136;0m1\x1b[39m \x1b[38;5;9m\x1b[1m\x1b[4mls\x1b[0m > o" ∧
      Terminal.start.feed e.line = ⟨.text, .plain, mixedTheme.cells d.runs⟩ ∧
      String.join (d.runs.map Run.text) = "A=1 ls > o" := by
  have hrun : ((Document.readChecked overrunText).toOption.bind fun d =>
      (d.explain (mixedTheme.painter .shown)).toOption.map fun e =>
        (e.line, String.join (d.runs.map Run.text),
          decide (escapeChar ∉ d.source.toList ∧
            ∀ leaf ∈ d.tree.leaves, ∀ s ∈ leaf.writtenTexts, escapeChar ∉ s.toList))) =
      some ("A=\x1b[38;2;255;136;0m1\x1b[39m \x1b[38;5;9m\x1b[1m\x1b[4mls\x1b[0m > o",
        "A=1 ls > o", true) := by
    decide +kernel
  obtain ⟨d, hd, hrun⟩ := Option.bind_eq_some_iff.mp hrun
  obtain ⟨e, he, hrun⟩ := Option.map_eq_some_iff.mp hrun
  simp only [Prod.mk.injEq, decide_eq_true_eq] at hrun
  obtain ⟨hline, hplain, hsource, hwritten⟩ := hrun
  have hd := eq_ok_of_toOption hd
  have he := eq_ok_of_toOption he
  exact ⟨d, e, hd, hsource, hwritten, he, hline, (feed_explain hd hsource hwritten he).1, hplain⟩

end ShellGloss
