import ShellGloss.Proofs.RoundTrip

/-!
# Reading what has been presented

What is read as a node does not depend on how the node was presented, and neither
does what is read as a document.
-/

namespace ShellGloss

theorem asData_eq_ok_iff {α : Type} {x : Decoded α} {a : α} : asData x = .ok a ↔ x = .ok a := by
  cases x <;> simp [asData, Except.mapError]

namespace Document

/-- A document as an object. -/
def toJson (d : Document) : Json :=
  .obj [("source", .str d.source), ("ast", d.tree.toJson)]

open Fields

theorem reads_iff {get : String → Option Json} {absent : String → DecodeError} {d : Document} :
    fields.Reads get absent d ↔ (required "source" Json.readText).Reads get absent d.source ∧
      (required "ast" Node.ofJson).Reads get absent d.tree := by
  obtain ⟨source, tree⟩ := d
  simp [fields]

theorem recovers_fields {d : Document} (h : d.tree.Fits) :
    Json.Recovers fields.read d.toJson d := by
  refine Fields.recovers (by decide) rfl fun get absent hfound => ?_
  simp only [List.forall_mem_cons] at hfound
  obtain ⟨hsource, htree, -⟩ := hfound
  exact reads_iff.mpr ⟨reads_text_of_found (by decide) hsource,
    reads_required_of_found (Node.recovers_ofJson h) (by decide) htree⟩

/-- What is read as the fields of a document has no more items than a document may have. -/
theorem ofJson_eq_ok_of_read {v : Json} {d : Document} (h : fields.read v = .ok d) :
    ofJson v = .ok d := by
  cases v with
  | obj members =>
    rw [ofJson, asData, ← Fields.read, h]
    rfl
  | arr items =>
    have hlength : items.length ≤ 2 := ((readItems_eq_ok_iff (by decide)).mp h).1
    rw [Fields.read] at h
    rw [ofJson, List.take_of_length_le hlength, asData, h]
    exact if_neg (Nat.not_lt.mpr hlength)
  | null | bool | num | str => cases h

theorem presentedBy_toJson (d : Document) : d.toJson.PresentedBy d.toJson :=
  .self (by simp) (by simp [Node.presentedBy_toJson])

theorem ofJson_toJson {d : Document} (h : d.tree.Fits) : ofJson d.toJson = .ok d :=
  ofJson_eq_ok_of_read (recovers_fields h _ d.presentedBy_toJson)

theorem fits_of_fields {v : Json} {d : Document} (h : fields.read v = .ok d) : d.tree.Fits := by
  obtain ⟨get, absent, hreads⟩ := exists_reads_of_read (by decide) h
  obtain ⟨w, -, hw⟩ := reads_required_iff.mp (reads_iff.mp hreads).2
  exact Node.fits_of_ofJson hw

theorem fits_of_ofJson {v : Json} {d : Document} (h : ofJson v = .ok d) : d.tree.Fits := by
  cases v with
  | obj members => exact fits_of_fields (v := .obj members) (asData_eq_ok_iff.mp h)
  | arr items =>
    obtain ⟨d', hd', h⟩ := bind_eq_ok_iff.mp h
    split at h
    · cases h
    · obtain rfl : d' = d := Except.ok.inj h
      exact fits_of_fields (v := .arr (items.take 2)) (asData_eq_ok_iff.mp hd')
  | null | bool | num | str => cases h

/-- The tree of a document that has been read holds numbers that fit. -/
theorem fits_of_read {text : String} {d : Document} (h : read text = .ok d) : d.tree.Fits := by
  unfold read readThrough at h
  split at h
  · exact fits_of_ofJson h
  · cases h

end Document

/-- However a node is presented, at every depth anew, it is read as that node: with the
fields of a record in any order, among members that are no fields, without those that
are as they are when left out, or in an array. So is a document. -/
theorem reads_any_presentation :
    (∀ n : Node, n.Fits → ∀ v, n.toJson.PresentedBy v → Node.ofJson v = .ok n ∧
      ∀ text, Json.read text = .ok v → Node.read text = .ok n) ∧
    ∀ d : Document, d.tree.Fits → ∀ v, d.toJson.PresentedBy v → Document.ofJson v = .ok d ∧
      ∀ text, Json.readIgnoring (fun name => !Document.fields.names.contains name) text = .ok v →
        Document.read text = .ok d := by
  refine ⟨fun n hfits v hv => ?_, fun d hfits v hv => ?_⟩
  · have hread : Node.ofJson v = .ok n := Node.recovers_ofJson hfits v hv
    refine ⟨hread, fun text htext => ?_⟩
    rw [Json.read] at htext
    rw [Node.read, readThrough, htext]
    simp only [asData, hread]
    rfl
  · have hread : Document.ofJson v = .ok d :=
      Document.ofJson_eq_ok_of_read (Document.recovers_fields hfits v hv)
    refine ⟨hread, fun text htext => ?_⟩
    rw [Document.read, readThrough, htext]
    exact hread

/-- A listing of a given width, written to a file. -/
def listing : Document where
  source := "ls -w 8 >f"
  tree := .group .command ⟨0, 10⟩ [
    .program ⟨⟨0, 2⟩, "ls", "ls", some ⟨"ls", ""⟩⟩,
    .optionWithArg
      ⟨⟨3, 7⟩, ⟨⟨3, 5⟩, "-w", "-w", some ⟨[], ["-w"], "", true, false⟩⟩, ⟨⟨6, 7⟩, "8"⟩⟩,
    .redirect ⟨⟨8, 10⟩, .write, none, some ⟨⟨9, 10⟩, "f"⟩, none⟩]

/-- Its tree as an array. The program has its members out of order, another one twice, and
an array for its schema, without the summary; the option has members called `kind`, which
are none of its fields; the redirect is an array without its last item. -/
def scatteredTree : Json :=
  .arr [.str "command", .arr [.ofNat 0, .ofNat 10], .arr [
    .obj [("word", .str "ls"), ("note", .null), ("schema", .arr [.str "ls"]),
      ("note", .bool true), ("name", .str "ls"), ("kind", .str "program"),
      ("position", .arr [.ofNat 0, .ofNat 2])],
    .obj [("argument", .arr [.arr [.ofNat 6, .ofNat 7], .str "8"]), ("kind", .str "optionWithArg"),
      ("option", .obj [("kind", .ofNat 7), ("opt", .str "-w"), ("word", .str "-w"),
        ("optionSchema", .obj [("expectsArg", .bool true), ("short", .arr [.str "-w"])]),
        ("kind", .obj []), ("position", .arr [.ofNat 3, .ofNat 5])]),
      ("position", .arr [.ofNat 3, .ofNat 7])],
    .arr [.str "redirect", .arr [.ofNat 8, .ofNat 10], .str ">", .null,
      .obj [("word", .str "f"), ("position", .arr [.ofNat 9, .ofNat 10])]]]]

/-- A single word. -/
def letter : Document where
  source := "x"
  tree := .word .word ⟨⟨0, 1⟩, "x"⟩

/-- Its text with the fields out of order and a member that is none. -/
def swappedLetter : String :=
  "\x7b\"ast\": [\"word\", [0, 1], \"x\"], \"note\": 0, \"source\": \"x\"\x7d"

theorem reads_any_presentation_scattered :
    Node.ofJson scatteredTree = .ok listing.tree ∧
      Document.ofJson (.arr [.str "ls -w 8 >f", scatteredTree]) = .ok listing ∧
      Node.read "[\"word\", [0, 1], \"x\"]" = .ok letter.tree ∧
      Document.read swappedLetter = .ok letter := by
  have hlisting : listing.tree.Fits := Node.fits_of_ofJson (v := listing.tree.toJson) rfl
  have htree : listing.tree.toJson.PresentedBy scatteredTree := by
    simp [listing, scatteredTree, Node.toJson, Program.members, BoundFlag.members, Flag.members,
      Word.members, Redirect.members, CommandSchema.toJson, OptionSchema.toJson, Span.toJson,
      Json.presentedBy_obj_iff, Json.presentedBy_row_iff, Json.presentedBy_arr_iff,
      List.forall₂_cons_left_iff, Json.omittable, List.lookup_cons, RedirectOp.text, Json.ofOption,
      Json.ofTexts, GroupKind.kind, Kind.name]
  have hdocument : listing.toJson.PresentedBy (.arr [.str "ls -w 8 >f", scatteredTree]) := by
    simpa [Document.toJson, Json.presentedBy_row_iff, Json.presentedBy_obj_iff, List.lookup_cons,
      listing] using htree
  have hletter : letter.tree.Fits := Node.fits_of_ofJson (v := letter.tree.toJson) rfl
  have hrow : letter.tree.toJson.PresentedBy
      (.arr [.str "word", .arr [.ofNat 0, .ofNat 1], .str "x"]) := by
    simp [letter, Node.toJson, Word.members, Span.toJson, Json.presentedBy_row_iff,
      Json.presentedBy_obj_iff, Json.presentedBy_arr_iff, List.forall₂_cons_left_iff,
      List.lookup_cons, WordKind.kind, Kind.name]
  have hswapped : letter.toJson.PresentedBy (.obj [("ast",
      .arr [.str "word", .arr [.ofNat 0, .ofNat 1], .str "x"]), ("source", .str "x")]) := by
    simpa [Document.toJson, Json.presentedBy_obj_iff, List.lookup_cons, letter] using hrow
  exact ⟨(reads_any_presentation.1 _ hlisting _ htree).1,
    (reads_any_presentation.2 _ hlisting _ hdocument).1,
    (reads_any_presentation.1 _ hletter _ hrow).2 _ rfl,
    (reads_any_presentation.2 _ hletter _ hswapped).2 _ rfl⟩

end ShellGloss
