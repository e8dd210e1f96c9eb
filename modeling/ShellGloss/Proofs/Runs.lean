import ShellGloss.Proofs.Splice

/-!
# Runs

What is written for a leaf, and so for a whole line, is a sequence of runs: texts
that a painter is asked to paint in some role, and texts that are copied. The
runs do not depend on the painter (`Node.paint_eq_paintRuns`,
`markup_eq_paintRuns`), so two painters differ in nothing but what they make of
the same runs.
-/

namespace ShellGloss

variable {ε : Type}

/-- A text that is painted in a role, or copied if there is none. -/
structure Run where
  role : Option Role
  text : String
deriving DecidableEq, Repr

namespace Run

/-- A text in the role of a kind. -/
def ofKind (k : Kind) (text : String) : Run :=
  ⟨some k.role, text⟩

/-- A text that is copied. -/
def copied (text : String) : Run :=
  ⟨none, text⟩

/-- A run as it is shown. -/
def paint (p : Painter ε) (r : Run) : Except ε String :=
  match r.role with
  | some role => p role r.text
  | none => .ok r.text

@[simp] theorem paint_copied (p : Painter ε) (text : String) :
    (copied text).paint p = .ok text := rfl

@[simp] theorem paint_ofKind (p : Painter ε) (k : Kind) (text : String) :
    (ofKind k text).paint p = p k.role text := rfl

end Run

/-- Runs painted and joined, up to the first that cannot be. -/
def paintRuns (p : Painter ε) (rs : List Run) : Except ε String := do
  return String.join (← rs.mapM (Run.paint p))

section PaintRuns

variable {p : Painter ε}

@[simp] theorem paintRuns_nil : paintRuns p [] = .ok "" := rfl

theorem paintRuns_cons (r : Run) (rs : List Run) :
    paintRuns p (r :: rs) = do
      let shown ← r.paint p
      let more ← paintRuns p rs
      return shown ++ more :=
  joinMapM_cons (Run.paint p) r rs

theorem paintRuns_append (rs rs' : List Run) :
    paintRuns p (rs ++ rs') = do
      let shown ← paintRuns p rs
      let more ← paintRuns p rs'
      return shown ++ more :=
  joinMapM_append (Run.paint p) rs rs'

/-- Without styles the texts of the runs are joined. -/
theorem paintRuns_plain (rs : List Run) :
    paintRuns .plain rs = .ok (String.join (rs.map Run.text)) := by
  have hpaint (r : Run) : r.paint .plain = .ok r.text := by
    obtain ⟨role, text⟩ := r
    cases role <;> rfl
  induction rs with
  | nil => rfl
  | cons r rs ih =>
    rw [paintRuns_cons, hpaint, ih, List.map_cons, String.join_cons]
    rfl

end PaintRuns

/-! ## The runs of a leaf -/

/-- A descriptor of a redirect as a run, if there is one. -/
def descriptorRuns (fd : Option Nat) : List Run :=
  fd.toList.map fun n => .ofKind .redirect (toString n)

/-- The runs of the target of a redirect. -/
def Redirect.targetRuns (r : Redirect) : List Run :=
  match r.output with
  | some w => [.copied " ", .ofKind .word w.word]
  | none => descriptorRuns r.outputFd

/-- The runs of a leaf that covers `text`. -/
def Node.runs (text : String) : Node → List Run
  | assignment a => [⟨some .assignmentName, a.name⟩, .copied "=", ⟨some .assignmentValue, a.value⟩]
  | redirect r => descriptorRuns r.input ++ .ofKind .redirect r.op.text :: r.targetRuns
  | n => [.ofKind n.kind text]

section PaintLeaf

variable {p : Painter ε}

theorem paintDescriptor_eq_paintRuns (fd : Option Nat) :
    paintDescriptor p fd = paintRuns p (descriptorRuns fd) := by
  cases fd with
  | none => rfl
  | some n =>
    simp only [paintDescriptor, descriptorRuns, Option.toList_some, List.map_cons, List.map_nil,
      paintRuns_cons, paintRuns_nil, Run.paint_ofKind]
    cases p Kind.redirect.role (toString n) with
    | error e => rfl
    | ok shown => exact congrArg Except.ok String.append_empty.symm

theorem Redirect.paintTarget_eq_paintRuns (r : Redirect) :
    r.paintTarget p = paintRuns p r.targetRuns := by
  rw [paintTarget, targetRuns]
  cases r.output with
  | none => exact paintDescriptor_eq_paintRuns r.outputFd
  | some w =>
    simp only [paintRuns_cons, paintRuns_nil, Run.paint_ofKind, Run.paint_copied]
    cases p Kind.word.role w.word with
    | error e => rfl
    | ok shown =>
      have hshown : " " ++ shown = " " ++ (shown ++ "") := by
        rw [String.append_empty]
      exact congrArg Except.ok hshown

theorem Redirect.paint_eq_paintRuns (r : Redirect) (text : String) :
    r.paint p = paintRuns p ((Node.redirect r).runs text) := by
  rw [paint, Node.runs, paintRuns_append, paintRuns_cons, ← paintDescriptor_eq_paintRuns,
    ← paintTarget_eq_paintRuns, Run.paint_ofKind]
  cases paintDescriptor p r.input with
  | error e => rfl
  | ok input =>
    cases p Kind.redirect.role r.op.text with
    | error e => rfl
    | ok op =>
      cases r.paintTarget p with
      | error e => rfl
      | ok target => exact congrArg Except.ok (String.append_assoc ..)

theorem Assignment.paint_eq_paintRuns (a : Assignment) (text : String) :
    a.paint p = paintRuns p ((Node.assignment a).runs text) := by
  simp only [paint, Node.runs, paintRuns_cons, paintRuns_nil, Run.paint]
  cases p .assignmentName a.name with
  | error e => rfl
  | ok name =>
    cases p .assignmentValue a.value with
    | error e => rfl
    | ok value =>
      have hshown : name ++ "=" ++ value = name ++ ("=" ++ (value ++ "")) := by
        rw [String.append_empty, String.append_assoc]
      exact congrArg Except.ok hshown

/-- A leaf is painted run by run. -/
theorem Node.paint_eq_paintRuns (leaf : Node) (text : String) :
    leaf.paint p text = paintRuns p (leaf.runs text) := by
  have hsingle (k : Kind) : p k.role text = paintRuns p [.ofKind k text] := by
    rw [paintRuns_cons, Run.paint_ofKind, paintRuns_nil]
    cases p k.role text with
    | error e => rfl
    | ok shown => exact congrArg Except.ok String.append_empty.symm
  cases leaf with
  | assignment a => exact a.paint_eq_paintRuns text
  | redirect r => exact r.paint_eq_paintRuns text
  | _ => exact hsingle _

end PaintLeaf

/-! ## The runs of a line -/

/-- The runs of a line from the offset `start` on: before each leaf what stands
between the leaves, and in the end what is left. -/
def lineRuns (source : String) : Nat → List Node → List Run
  | start, [] => [.copied (Span.slice ⟨min start source.length, source.length⟩ source)]
  | start, leaf :: leaves =>
    .copied (Span.slice ⟨start, leaf.span.start⟩ source) ::
      (leaf.runs (leaf.span.slice source) ++ lineRuns source leaf.span.stop leaves)

/-- The runs of the line that shows a document. -/
def Document.runs (d : Document) : List Run :=
  lineRuns d.source 0 d.tree.leaves

theorem paintPieces_layout_eq_paintRuns {p : Painter ε} {source : String} (start : Nat)
    (leaves : List Node) :
    paintPieces p (layout source start leaves) = paintRuns p (lineRuns source start leaves) := by
  induction leaves generalizing start with
  | nil =>
    rw [layout, paintPieces_gaps, lineRuns, paintRuns_cons, Run.paint_copied, paintRuns_nil]
    exact congrArg Except.ok String.append_empty.symm
  | cons leaf leaves ih =>
    rw [layout, paintPieces_gaps_append, paintPieces_covered_cons, ih, Node.paint_eq_paintRuns,
      lineRuns, paintRuns_cons, Run.paint_copied, paintRuns_append]
    cases paintRuns p (leaf.runs (leaf.span.slice source)) with
    | error e => rfl
    | ok shown =>
      cases paintRuns p (lineRuns source leaf.span.stop leaves) with
      | error e => rfl
      | ok more => rfl

/-- Marking up a checked document paints its runs. -/
theorem Document.markup_eq_paintRuns {d : Document} (hd : d.check = .ok ()) (p : Painter ε) :
    markup p d.source d.tree.leaves = paintRuns p d.runs := by
  rw [markup_eq_paintPieces, pieces_eq_layout (laidOut_leaves hd), paintPieces_layout_eq_paintRuns,
    runs]

end ShellGloss
