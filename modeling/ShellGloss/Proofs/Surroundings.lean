import ShellGloss.Proofs.Decoding
import ShellGloss.Proofs.Splice

/-!
# A document inside a longer text

`Document.embed` puts text before and after the source of a document and moves its
tree along. Every offset moves by the same number of characters, so whatever compares
offsets with one another is unchanged, and every span cuts out of the longer text what
it cut out of the source. The explanation is that of the document, with the text put
around it.

The last leaf of a document may reach beyond its source. With text after it such a
leaf would cover some of that text, so it is required then that no leaf does.
-/

namespace ShellGloss

/-! ## Moving a tree -/

/-- A word moved right by `k` characters. -/
def Word.shift (w : Word) (k : Nat) : Word :=
  { w with span := w.span.shift k }

/-- An option moved right by `k` characters. -/
def Flag.shift (o : Flag) (k : Nat) : Flag :=
  { o with span := o.span.shift k }

/-- An option moved right by `k` characters, together with its value. -/
def BoundFlag.shift (o : BoundFlag) (k : Nat) : BoundFlag :=
  ⟨o.span.shift k, o.option.shift k, o.argument.shift k⟩

/-- A redirect moved right by `k` characters, together with its output word. -/
def Redirect.shift (r : Redirect) (k : Nat) : Redirect :=
  { r with span := r.span.shift k, output := r.output.map (Word.shift · k) }

namespace Node

mutual

/-- A tree moved right by `k` characters. -/
def shift (k : Nat) : Node → Node
  | program p => program { p with span := p.span.shift k }
  | subcommand s => subcommand { s with span := s.span.shift k }
  | option o => option (o.shift k)
  | optionWithArg o => optionWithArg (o.shift k)
  | sticky s w os => sticky (s.shift k) w (shiftAll k os)
  | assignment a => assignment { a with span := a.span.shift k }
  | redirect r => redirect (r.shift k)
  | word kind w => word kind (w.shift k)
  | group kind s ps => group kind (s.shift k) (shiftAll k ps)

/-- Several trees moved right by `k` characters. -/
def shiftAll (k : Nat) : List Node → List Node
  | [] => []
  | n :: ns => shift k n :: shiftAll k ns

end

variable {k : Nat}

theorem shiftAll_eq_map (ns : List Node) : shiftAll k ns = ns.map (shift k) := by
  induction ns with
  | nil => rfl
  | cons n ns ih => rw [shiftAll, ih, List.map_cons]

@[simp] theorem shift_sticky (s : Span) (w : String) (os : List Node) :
    shift k (sticky s w os) = sticky (s.shift k) w (os.map (shift k)) := by
  rw [shift, shiftAll_eq_map]

@[simp] theorem shift_group (kind : GroupKind) (s : Span) (ps : List Node) :
    shift k (group kind s ps) = group kind (s.shift k) (ps.map (shift k)) := by
  rw [shift, shiftAll_eq_map]

/-! ### What a move changes -/

@[simp] theorem span_shift (n : Node) : (shift k n).span = n.span.shift k := by
  cases n <;> rfl

@[simp] theorem spans_shift (n : Node) : (shift k n).spans = n.spans.map (Span.shift · k) := by
  cases n with
  | redirect r => simp [shift, spans, Redirect.shift, Word.shift, Option.toList_map]
  | _ => rfl

@[simp] theorem children_shift (n : Node) : (shift k n).children = n.children.map (shift k) := by
  cases n with
  | sticky => rw [shift_sticky]; rfl
  | group => rw [shift_group]; rfl
  | _ => rfl

theorem parts_shift (n : Node) :
    (shift k n).parts?.getD [] = (n.parts?.getD []).map (shift k) := by
  cases n with
  | group => rw [shift_group]; rfl
  | sticky => rw [shift_sticky]; rfl
  | _ => rfl

@[simp] theorem leaves_shift (n : Node) : (shift k n).leaves = n.leaves.map (shift k) := by
  induction n with
  | sticky s w os => rw [shift_sticky, leaves_sticky, leaves_sticky]
  | group kind s ps ih =>
    rw [shift_group, leaves_group, leaves_group, List.map_flatMap, List.flatMap_map]
    exact List.flatMap_congr ih
  | _ => rfl

/-! ### What a move leaves as it is -/

@[simp] theorem kind_shift (n : Node) : (shift k n).kind = n.kind := by
  cases n <;> rfl

@[simp] theorem isOption_shift (n : Node) : (shift k n).isOption = n.isOption := by
  cases n <;> rfl

@[simp] theorem isProgram_shift (n : Node) : (shift k n).isProgram = n.isProgram := by
  cases n <;> rfl

@[simp] theorem descriptors_shift (n : Node) : (shift k n).descriptors = n.descriptors := by
  cases n <;> rfl

@[simp] theorem meaning_shift (n : Node) : (shift k n).meaning = n.meaning := by
  cases n with
  | redirect r =>
    have htarget : (r.shift k).targetName = r.targetName := by
      simp only [Redirect.targetName, Redirect.shift]
      cases r.output <;> rfl
    have hmeaning : (r.shift k).meaning = r.meaning := by
      rw [Redirect.meaning, htarget]
      rfl
    exact congrArg some hmeaning
  | _ => rfl

@[simp] theorem paint_shift {ε : Type} (p : Painter ε) (text : String) (n : Node) :
    (shift k n).paint p text = n.paint p text := by
  cases n with
  | redirect r =>
    have htarget : (r.shift k).paintTarget p = r.paintTarget p := by
      simp only [Redirect.paintTarget, Redirect.shift]
      cases r.output <;> rfl
    have hpaint : (r.shift k).paint p = r.paint p := by
      rw [Redirect.paint, htarget]
      rfl
    exact hpaint
  | _ => rfl

end Node

/-! ## The rules about spans -/

theorem Span.fitsIn_shift_iff {s t : Span} {k : Nat} :
    (s.shift k).FitsIn (t.shift k) ↔ s.FitsIn t := by
  constructor
  · rintro ⟨hne, hstart, hstop⟩
    simp only [shift, Nat.add_lt_add_iff_right, Nat.add_le_add_iff_right] at hne hstart hstop
    exact ⟨hne, hstart, hstop⟩
  · rintro ⟨hne, hstart, hstop⟩
    exact ⟨Nat.add_lt_add_right hne k, Nat.add_le_add_right hstart k, Nat.add_le_add_right hstop k⟩

namespace Node

variable {k : Nat}

theorem Rules.shift {n : Node} (h : n.Rules) : (n.shift k).Rules := by
  cases n with
  | optionWithArg o =>
    obtain ⟨hoption, hargument, hordered⟩ := h
    exact ⟨Span.fitsIn_shift_iff.mpr hoption, Span.fitsIn_shift_iff.mpr hargument,
      Nat.add_le_add_right hordered k⟩
  | redirect r =>
    intro w' hw'
    obtain ⟨w, hw, rfl⟩ := Option.map_eq_some_iff.mp hw'
    obtain ⟨hne, hafter⟩ := h w hw
    exact ⟨Nat.add_lt_add_right hne k, Nat.add_lt_add_right hafter k⟩
  | sticky s w os =>
    obtain ⟨hoption, hfits, hchain⟩ := h
    rw [shift_sticky]
    refine ⟨?_, ?_, (List.isChain_map (Node.shift k)).mpr (hchain.imp fun a b hab => ?_)⟩
    · simpa using hoption
    · simpa [Span.fitsIn_shift_iff] using hfits
    · rw [span_shift, span_shift, Span.shift, Span.shift, hab]
  | group kind s ps =>
    obtain ⟨hfits, hordered, hprograms⟩ := h
    rw [shift_group]
    refine ⟨?_, List.pairwise_map.mpr (hordered.imp fun hab => ?_), fun hkind => ?_⟩
    · simpa [Span.fitsIn_shift_iff] using hfits
    · rw [span_shift, span_shift]
      exact Nat.add_le_add_right hab k
    · rw [List.countP_map]
      simpa [Function.comp_def] using hprograms hkind
  | _ => trivial

/-- The rules compare offsets with one another only, so a tree that is moved keeps them. -/
theorem WellFormed.shift {n : Node} (h : n.WellFormed) : (n.shift k).WellFormed := by
  induction h with
  | @node n hne hrules hparts ih =>
    refine .node ?_ hrules.shift ?_
    · rw [span_shift]
      exact Nat.add_lt_add_right hne k
    · rw [parts_shift, List.forall_mem_map]
      exact ih

theorem StartsBelow.shift {n : Node} {length length' : Nat} (h : n.StartsBelow length)
    (hlength : length + k ≤ length') : (n.shift k).StartsBelow length' := by
  induction n using induct_children with
  | step n ih =>
    obtain ⟨hspans, hbelow⟩ := startsBelow_iff.mp h
    refine startsBelow_iff.mpr ⟨?_, ?_⟩
    · rw [spans_shift, List.forall_mem_map]
      exact fun s hs => Nat.lt_of_lt_of_le (Nat.add_lt_add_right (hspans s hs) k) hlength
    · rw [children_shift, List.forall_mem_map]
      exact fun c hc => ih c hc (hbelow c hc)

theorem Fits.shift {n : Node} (h : n.Fits)
    (hspans : ∀ path m, n.descend? path = some m → ∀ s ∈ m.spans, (s.shift k).Fits) :
    (n.shift k).Fits := by
  induction h with
  | @node n _ hdescriptors _ ih =>
    obtain ⟨hroot, hbelow⟩ := forall_descend?_iff.mp hspans
    refine .node ?_ ?_ ?_
    · rw [spans_shift, List.forall_mem_map]
      exact hroot
    · rw [descriptors_shift]
      exact hdescriptors
    · rw [children_shift, List.forall_mem_map]
      exact fun c hc => ih c hc (hbelow c hc)

end Node

/-! ## Slices of a longer text -/

section Around

variable (before after : String) {source : String}

theorem drop_around (i : Nat) :
    (before ++ source ++ after).toList.drop (i + before.length) =
      (source.toList ++ after.toList).drop i := by
  rw [String.toList_append, String.toList_append, List.append_assoc, Nat.add_comm,
    ← String.length_toList, ← List.drop_drop, List.drop_left]

theorem slice_before : Span.slice ⟨0, before.length⟩ (before ++ source ++ after) = before := by
  apply String.toList_injective
  rw [Span.toList_slice, Span.length, String.toList_append, String.toList_append,
    List.append_assoc, ← String.length_toList]
  exact List.take_left

/-- A span that ends in the source cuts out of the longer text what it cut out before. -/
theorem Span.slice_shift (s : Span) (h : after = "" ∨ s.stop ≤ source.length) :
    (s.shift before.length).slice (before ++ source ++ after) = s.slice source := by
  apply String.toList_injective
  have hlength : (s.shift before.length).length = s.length := Nat.add_sub_add_right ..
  have hnone : (after.toList.drop (s.start - source.toList.length)).take
      (s.length - (source.toList.drop s.start).length) = [] := by
    rcases h with rfl | h
    · simp
    · have hzero : s.length - (source.toList.drop s.start).length = 0 := by
        rw [List.length_drop, String.length_toList, length]
        omega
      rw [hzero, List.take_zero]
  rw [toList_slice, toList_slice, hlength, shift, drop_around, List.drop_append, List.take_append,
    hnone, List.append_nil]

/-! ## Splices into a longer text -/

/-- Up to the first gloss the source can be taken in two steps. -/
theorem splice_from {start mid : Nat} {gs : List Gloss} (h : start ≤ mid)
    (hgs : ∀ g ∈ gs, mid ≤ g.span.start) :
    splice source start gs = Span.slice ⟨start, mid⟩ source ++ splice source mid gs := by
  cases gs with
  | nil =>
    apply String.toList_injective
    rw [splice, splice, String.toList_append, Span.toList_slice_to_end, Span.toList_slice_to_end]
    exact Span.drop_eq_slice_append h source
  | cons g gs =>
    rw [splice, splice, ← Span.slice_append h (hgs g (by simp)) source, String.append_assoc,
      String.append_assoc, String.append_assoc]

/-- A gloss moved right by `k` characters. -/
def Gloss.shift (k : Nat) (g : Gloss) : Gloss :=
  { g with span := g.span.shift k }

theorem splice_shift {start : Nat} {gs : List Gloss}
    (hstart : ∀ g ∈ gs, g.span.start ≤ source.length)
    (hstop : after = "" ∨ start ≤ source.length ∧ ∀ g ∈ gs, g.span.stop ≤ source.length) :
    splice (before ++ source ++ after) (start + before.length)
      (gs.map (Gloss.shift before.length)) = splice source start gs ++ after := by
  induction gs generalizing start with
  | nil =>
    apply String.toList_injective
    rw [List.map_nil, splice, splice, String.toList_append, Span.toList_slice_to_end,
      Span.toList_slice_to_end, drop_around]
    rcases hstop with rfl | ⟨hstart, -⟩
    · simp
    · rw [List.drop_append_of_le_length (by rwa [String.length_toList])]
  | cons g gs ih =>
    obtain ⟨hg, hgs⟩ := List.forall_mem_cons.mp hstart
    have hgap := Span.slice_shift before after ⟨start, g.span.start⟩ (.inr hg)
    have hrest : after = "" ∨ g.span.stop ≤ source.length ∧ ∀ g ∈ gs, g.span.stop ≤ source.length :=
      hstop.imp_right fun h => List.forall_mem_cons.mp h.2
    calc splice (before ++ source ++ after) (start + before.length)
          ((g :: gs).map (Gloss.shift before.length))
        = (Span.shift ⟨start, g.span.start⟩ before.length).slice (before ++ source ++ after) ++
            g.text ++ splice (before ++ source ++ after) (g.span.stop + before.length)
              (gs.map (Gloss.shift before.length)) := rfl
      _ = Span.slice ⟨start, g.span.start⟩ source ++ g.text ++
            (splice source g.span.stop gs ++ after) := by rw [hgap, ih hgs hrest]
      _ = splice source start (g :: gs) ++ after := by rw [splice, ← String.append_assoc]

/-- What stands before the source comes first, whether any gloss follows or none. -/
theorem splice_around {gs : List Gloss} (hstart : ∀ g ∈ gs, g.span.start ≤ source.length)
    (hstop : after = "" ∨ ∀ g ∈ gs, g.span.stop ≤ source.length) :
    splice (before ++ source ++ after) 0 (gs.map (Gloss.shift before.length)) =
      before ++ splice source 0 gs ++ after := by
  have hbehind : ∀ g ∈ gs.map (Gloss.shift before.length), before.length ≤ g.span.start := by
    rw [List.forall_mem_map]
    exact fun g _ => Nat.le_add_left ..
  have hrest : splice (before ++ source ++ after) (0 + before.length)
      (gs.map (Gloss.shift before.length)) = splice source 0 gs ++ after :=
    splice_shift before after hstart (hstop.imp_right fun h => ⟨Nat.zero_le _, h⟩)
  rw [Nat.zero_add] at hrest
  rw [splice_from (Nat.zero_le _) hbehind, slice_before, hrest, String.append_assoc]

/-! ## Explanations -/

variable {ε : Type} {p : Painter ε}

theorem Node.gloss_shift (leaf : Node) (h : after = "" ∨ leaf.span.stop ≤ source.length) :
    (leaf.shift before.length).gloss p (before ++ source ++ after) =
      Gloss.shift before.length <$> leaf.gloss p source := by
  rw [gloss, gloss, span_shift, Span.slice_shift _ _ _ h, paint_shift, kind_shift, meaning_shift]
  cases leaf.paint p (leaf.span.slice source) <;> rfl

theorem glosses_shift {leaves : List Node}
    (h : ∀ l ∈ leaves, after = "" ∨ l.span.stop ≤ source.length) :
    glosses p (before ++ source ++ after) (leaves.map (Node.shift before.length)) =
      List.map (Gloss.shift before.length) <$> glosses p source leaves := by
  induction leaves with
  | nil => rfl
  | cons leaf leaves ih =>
    obtain ⟨hleaf, hleaves⟩ := List.forall_mem_cons.mp h
    have hmore := ih hleaves
    simp only [glosses, List.map_cons, List.mapM_cons] at hmore ⊢
    rw [leaf.gloss_shift before after hleaf, hmore]
    -- both sides stop at the first leaf that cannot be painted
    cases leaf.gloss p source with
    | error e => rfl
    | ok g => cases leaves.mapM (Node.gloss p source) <;> rfl

/-- Glosses have the spans of leaves. -/
theorem forall_span_of_glosses {P : Span → Prop} {leaves : List Node} {gs : List Gloss}
    (h : glosses p source leaves = .ok gs) (hleaves : ∀ l ∈ leaves, P l.span) :
    ∀ g ∈ gs, P g.span := by
  intro g hg
  obtain ⟨l, hl, hgloss⟩ := exists_mem_of_mapM_eq_ok h hg
  obtain ⟨-, -, hspan, -⟩ := Node.gloss_eq_ok_iff.mp hgloss
  rw [hspan]
  exact hleaves l hl

end Around

/-- An explanation with text before and after the line. -/
def Explanation.embed (before after : String) (e : Explanation) : Explanation :=
  ⟨before ++ e.line ++ after, e.glosses.map (Gloss.shift before.length)⟩

namespace Document

/-- A document with text before and after the source. -/
def embed (before after : String) (d : Document) : Document :=
  ⟨before ++ d.source ++ after, d.tree.shift before.length⟩

variable {d : Document} {before after : String}

theorem check_embed (h : d.check = .ok ()) : (d.embed before after).check = .ok () := by
  obtain ⟨htree, hstarts⟩ := check_eq_ok_iff.mp h
  refine check_eq_ok_iff.mpr ⟨htree.shift, hstarts.shift ?_⟩
  rw [embed, String.length_append, String.length_append]
  omega

theorem explain_embed (h : d.check = .ok ())
    (hinside : after ≠ "" → ∀ l ∈ d.tree.leaves, l.span.stop ≤ d.source.length) {ε : Type}
    (p : Painter ε) :
    (d.embed before after).explain p = Explanation.embed before after <$> d.explain p := by
  have hstop : after = "" ∨ ∀ l ∈ d.tree.leaves, l.span.stop ≤ d.source.length :=
    Decidable.or_iff_not_imp_left.mpr hinside
  have hleaves : (d.embed before after).tree.leaves = d.tree.leaves.map (Node.shift before.length) :=
    d.tree.leaves_shift
  rw [explain_eq_splice (check_embed h), explain_eq_splice h, hleaves, embed,
    glosses_shift before after fun l hl => hstop.imp_right fun h => h l hl]
  cases hgs : glosses p d.source d.tree.leaves with
  | error e => rfl
  | ok gs =>
    have hglossStart : ∀ g ∈ gs, g.span.start ≤ d.source.length :=
      forall_span_of_glosses (P := fun s => s.start ≤ d.source.length) hgs fun l hl =>
        ((laidOut_leaves h).start_lt l hl).le
    have hglossStop : after = "" ∨ ∀ g ∈ gs, g.span.stop ≤ d.source.length :=
      hstop.imp_right (forall_span_of_glosses (P := fun s => s.stop ≤ d.source.length) hgs)
    have hline := splice_around before after hglossStart hglossStop
    simp only [Functor.map, Except.map, Explanation.embed, hline]

end Document

/-- An explanation does not depend on what surrounds the text. Put text before and after
the source of a document that is accepted, and move its tree along: as long as the
offsets fit and, where text comes after it, every leaf ends in the source, the document
can be written and read again and is accepted, and its explanation by any painter is the
former one with the text around the line and the spans moved, or the same failure. -/
theorem explain_in_surroundings {text : String} {d : Document}
    (hd : Document.readChecked text = .ok d) (before after : String)
    (hfits : ∀ path m, d.tree.descend? path = some m →
      ∀ s ∈ m.spans, (s.shift before.length).Fits)
    (hinside : after ≠ "" → ∀ l ∈ d.tree.leaves, l.span.stop ≤ d.source.length) :
    Document.ofJson (d.embed before after).toJson = .ok (d.embed before after) ∧
      (d.embed before after).check = .ok () ∧
      ∀ {ε : Type} (p : Painter ε),
        (d.embed before after).explain p = Explanation.embed before after <$> d.explain p := by
  obtain ⟨hread, hcheck⟩ := Document.readChecked_eq_ok_iff.mp hd
  exact ⟨Document.ofJson_toJson ((Document.fits_of_read hread).shift hfits),
    Document.check_embed hcheck, Document.explain_embed hcheck hinside⟩

/-- A pipe and the word after it; what stands before it is no leaf. -/
def pipeText : String :=
  "[\"a|b\",[\"pipeline\",[0,3],[[\"pipe\",[1,2],\"|\"],[\"word\",[2,3],\"b\"]]]]"

/-- The document that `pipeText` describes. -/
def pipeDocument : Document where
  source := "a|b"
  tree := .group .pipeline ⟨0, 3⟩ [.word .pipe ⟨⟨1, 2⟩, "|"⟩, .word .word ⟨⟨2, 3⟩, "b"⟩]

theorem explain_in_surroundings_pipe :
    Document.readChecked pipeText = .ok pipeDocument ∧
      (pipeDocument.embed "$ " " #").check = .ok () ∧
      (pipeDocument.embed "$ " " #").explain bracketPainter = .ok ⟨"$ a[|][b] #",
        [⟨.pipe, ⟨3, 4⟩, "[|]", some "pipes output of the previous command into the next"⟩,
          ⟨.word, ⟨4, 5⟩, "[b]", none⟩]⟩ := by
  have htext : Json.readIgnoring (fun name => !Document.fields.names.contains name) pipeText =
      .ok (.arr [.str "a|b", .arr [.str "pipeline", .arr [.ofNat 0, .ofNat 3], .arr [
        .arr [.str "pipe", .arr [.ofNat 1, .ofNat 2], .str "|"],
        .arr [.str "word", .arr [.ofNat 2, .ofNat 3], .str "b"]]]]) := rfl
  have hd : Document.readChecked pipeText = .ok pipeDocument := by
    refine Document.readChecked_eq_ok_iff.mpr ⟨?_, by decide⟩
    rw [Document.read, readThrough, htext]
    rfl
  have hfits : ∀ path m, pipeDocument.tree.descend? path = some m →
      ∀ s ∈ m.spans, (s.shift "$ ".length).Fits := by
    refine Node.forall_descend?_iff.mpr ⟨by decide, List.forall_mem_cons.mpr ⟨?_,
      List.forall_mem_singleton.mpr ?_⟩⟩
    · exact Node.forall_descend?_iff.mpr ⟨by decide, List.forall_mem_nil _⟩
    · exact Node.forall_descend?_iff.mpr ⟨by decide, List.forall_mem_nil _⟩
  have hinside : ∀ l ∈ pipeDocument.tree.leaves, l.span.stop ≤ pipeDocument.source.length := by
    decide
  have hexplained : pipeDocument.explain bracketPainter = .ok ⟨"a[|][b]",
      [⟨.pipe, ⟨1, 2⟩, "[|]", some "pipes output of the previous command into the next"⟩,
        ⟨.word, ⟨2, 3⟩, "[b]", none⟩]⟩ :=
    eq_ok_of_toOption (by decide +kernel)
  obtain ⟨-, hcheck, hexplain⟩ := explain_in_surroundings hd "$ " " #" hfits fun _ => hinside
  refine ⟨hd, hcheck, ?_⟩
  rw [hexplain, hexplained]
  rfl

end ShellGloss
