import ShellGloss.Document
import ShellGloss.Markup
import ShellGloss.Node.Leaves
import ShellGloss.Node.Meaning

/-!
# Explanations

The explanation of a document is its source, marked up, and a gloss on every leaf.
-/

namespace ShellGloss

variable {ε : Type}

/-- What is shown of one leaf. -/
structure Gloss where
  kind : Kind
  span : Span
  text : String
  meaning : Option String
deriving DecidableEq, Repr

/-- A source text, marked up, and the glosses on its leaves. -/
structure Explanation where
  line : String
  glosses : List Gloss
deriving DecidableEq, Repr

/-- The gloss on a leaf. -/
def Node.gloss (p : Painter ε) (source : String) (leaf : Node) : Except ε Gloss := do
  let text ← leaf.paint p (leaf.span.slice source)
  return ⟨leaf.kind, leaf.span, text, leaf.meaning⟩

/-- The glosses on several leaves. -/
def glosses (p : Painter ε) (source : String) (leaves : List Node) :
    Except ε (List Gloss) :=
  leaves.mapM (Node.gloss p source)

/-- What is noted when the leaves of a tree are taken. -/
def Node.leavesRecord (n : Node) : Log.Record :=
  ⟨.trace, "flattened " ++ n.kind.name ++ " " ++ n.span.render ++ " into "
    ++ toString n.leaves.length ++ " leaves"⟩

namespace Document

/-- The explanation of a document. -/
def explain (p : Painter ε) (d : Document) : Except ε Explanation := do
  let line ← markup p d.source d.tree.leaves
  let glosses ← glosses p d.source d.tree.leaves
  return ⟨line, glosses⟩

/-- What is noted while a document is explained. -/
def explainRecords (p : Painter ε) (d : Document) : List Log.Record :=
  d.tree.leavesRecord :: markupRecords p d.source d.tree.leaves

end Document

end ShellGloss
