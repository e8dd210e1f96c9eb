import ShellGloss.Proofs.Presentation
import ShellGloss.Proofs.WellFormed

/-!
# Writing a node and reading it back

A node that is written and read again is the same node exactly when its numbers fit
(`Node.Fits`): offsets into 64 bits, descriptors into 32. Whatever is read as a node
holds such numbers only.

Each record of a node has one equation that says what its fields read
(`Program.reads_iff` and so on). Whatever is found of a presentation of the written
record satisfies it; conversely it bounds the numbers of a record that was read. Trees
follow by induction, over what fits when they are written and over the JSON value when
they are read. That a written node is recovered from all its presentations
(`Node.recovers_ofJson`) holds in particular of the one that was written.
-/

namespace ShellGloss

open ShellGloss.Number (wordCount)

/-! ## Numbers that fit -/

namespace Node

/-- The descriptors that a node itself holds. -/
def descriptors : Node → List Nat
  | redirect r => r.input.toList ++ r.outputFd.toList
  | _ => []

/-- Every offset in the tree fits into 64 bits and every descriptor into 32. -/
inductive Fits : Node → Prop where
  | node {n : Node} (spans : ∀ s ∈ n.spans, s.Fits)
      (descriptors : ∀ d ∈ n.descriptors, d < wordCount 32)
      (children : ∀ c ∈ n.children, Fits c) : Fits n

end Node

/-! ## Records, written and read -/

section Records

open Fields Json

variable {get : String → Option Json} {absent : String → DecodeError}

theorem RedirectOp.recovers (op : RedirectOp) : Recovers ofJson (.str op.text) op := by
  intro w hw
  rw [presentedBy_str_iff.mp hw]
  simp [ofJson, ofName]

theorem Span.reads_of_found {s : Span} (hfits : s.Fits) (h : Found get ("position", s.toJson)) :
    field.Reads get absent s :=
  reads_required_of_found (recovers hfits) (by decide) h

theorem CommandSchema.recovers (s : CommandSchema) : Recovers fields.read s.toJson s := by
  refine Fields.recovers (by decide) rfl fun get absent hfound => ?_
  simp only [List.forall_mem_cons] at hfound
  obtain ⟨hname, hsummary, -⟩ := hfound
  exact reads_iff.mpr ⟨reads_text_of_found (by decide) hname,
    reads_optional_of_found (recovers_text _) (by simp [omittable]) hsummary⟩

theorem OptionSchema.recovers (s : OptionSchema) : Recovers fields.read s.toJson s := by
  refine Fields.recovers (by decide) rfl fun get absent hfound => ?_
  simp only [List.forall_mem_cons] at hfound
  obtain ⟨hlong, hshort, hsummary, hexpects, hnext, -⟩ := hfound
  exact reads_iff.mpr ⟨
    reads_optional_of_found (recovers_texts _) (by simp [omittable, ofTexts]) hlong,
    reads_optional_of_found (recovers_texts _) (by simp [omittable, ofTexts]) hshort,
    reads_optional_of_found (recovers_text _) (by simp [omittable]) hsummary,
    reads_optional_of_found (recovers_bool _) (by simp [omittable]) hexpects,
    reads_optional_of_found (recovers_bool _) (by simp [omittable]) hnext⟩

theorem CommandSchema.reads_of_found {s : Option CommandSchema}
    (h : Found get ("schema", .ofOption toJson s)) :
    (optional "schema" none (readOption fields.read)).Reads get absent s :=
  reads_option_of_found (by simp [omittable]) (fun _ => Json.noConfusion) (fun s _ => s.recovers) h

theorem OptionSchema.reads_of_found {s : Option OptionSchema}
    (h : Found get ("optionSchema", .ofOption toJson s)) :
    (optional "optionSchema" none (readOption fields.read)).Reads get absent s :=
  reads_option_of_found (by simp [omittable]) (fun _ => Json.noConfusion) (fun s _ => s.recovers) h

theorem Word.reads_of_found {w : Word} (hfits : w.span.Fits)
    (hfound : ∀ m ∈ w.members, Found get m) : fields.Reads get absent w := by
  simp only [members, List.forall_mem_cons] at hfound
  obtain ⟨hposition, hword, -⟩ := hfound
  exact reads_iff.mpr ⟨Span.reads_of_found hfits hposition, reads_text_of_found (by decide) hword⟩

theorem Program.reads_of_found {p : Program} (hfits : p.span.Fits)
    (hfound : ∀ m ∈ p.members, Found get m) : fields.Reads get absent p := by
  simp only [members, List.forall_mem_cons] at hfound
  obtain ⟨hposition, hword, hname, hschema, -⟩ := hfound
  exact reads_iff.mpr ⟨Span.reads_of_found hfits hposition, reads_text_of_found (by decide) hword,
    reads_text_of_found (by decide) hname, CommandSchema.reads_of_found hschema⟩

theorem Subcommand.reads_of_found {s : Subcommand} (hfits : s.span.Fits)
    (hfound : ∀ m ∈ s.members, Found get m) : fields.Reads get absent s := by
  simp only [members, List.forall_mem_cons] at hfound
  obtain ⟨hposition, hword, hschema, -⟩ := hfound
  exact reads_iff.mpr ⟨Span.reads_of_found hfits hposition, reads_text_of_found (by decide) hword,
    CommandSchema.reads_of_found hschema⟩

theorem Flag.reads_of_found {o : Flag} (hfits : o.span.Fits)
    (hfound : ∀ m ∈ o.members, Found get m) : fields.Reads get absent o := by
  simp only [members, List.forall_mem_cons] at hfound
  obtain ⟨hposition, hword, hname, hschema, -⟩ := hfound
  exact reads_iff.mpr ⟨Span.reads_of_found hfits hposition, reads_text_of_found (by decide) hword,
    reads_text_of_found (by decide) hname, OptionSchema.reads_of_found hschema⟩

theorem Assignment.reads_of_found {a : Assignment} (hfits : a.span.Fits)
    (hfound : ∀ m ∈ a.members, Found get m) : fields.Reads get absent a := by
  simp only [members, List.forall_mem_cons] at hfound
  obtain ⟨hposition, hname, hvalue, -⟩ := hfound
  exact reads_iff.mpr ⟨Span.reads_of_found hfits hposition, reads_text_of_found (by decide) hname,
    reads_text_of_found (by decide) hvalue⟩

theorem Word.recovers {w : Word} (h : w.span.Fits) : Recovers fields.read (.obj w.members) w :=
  Fields.recovers (by decide) rfl fun _ _ => reads_of_found h

theorem Flag.recovers {o : Flag} (h : o.span.Fits) : Recovers fields.read (.obj o.members) o :=
  Fields.recovers (by decide) rfl fun _ _ => reads_of_found h

theorem BoundFlag.reads_of_found {o : BoundFlag} (hfits : o.span.Fits)
    (hoption : o.option.span.Fits) (hargument : o.argument.span.Fits)
    (hfound : ∀ m ∈ o.members, Found get m) : fields.Reads get absent o := by
  simp only [members, List.forall_mem_cons] at hfound
  obtain ⟨hposition, hflag, hword, -⟩ := hfound
  exact reads_iff.mpr ⟨Span.reads_of_found hfits hposition,
    reads_required_of_found (Flag.recovers hoption) (by decide) hflag,
    reads_required_of_found (Word.recovers hargument) (by decide) hword⟩

theorem Redirect.reads_of_found {r : Redirect} (hfits : r.span.Fits)
    (hinput : ∀ d ∈ r.input, d < wordCount 32) (houtput : ∀ w ∈ r.output, w.span.Fits)
    (hfd : ∀ d ∈ r.outputFd, d < wordCount 32)
    (hfound : ∀ m ∈ r.members, Found get m) : fields.Reads get absent r := by
  simp only [members, List.forall_mem_cons] at hfound
  obtain ⟨hposition, htype, hin, hout, houtFd, -⟩ := hfound
  exact reads_iff.mpr ⟨Span.reads_of_found hfits hposition,
    reads_required_of_found r.op.recovers (by decide) htype,
    reads_option_of_found (by simp [omittable]) (fun _ => Json.noConfusion)
      (fun d hd => recovers_nat (hinput d hd)) hin,
    reads_option_of_found (by simp [omittable]) (fun _ => Json.noConfusion)
      (fun w hw => Word.recovers (houtput w hw)) hout,
    reads_option_of_found (by simp [omittable]) (fun _ => Json.noConfusion)
      (fun d hd => recovers_nat (hfd d hd)) houtFd⟩

/-! ### What is written presents itself -/

theorem CommandSchema.presentedBy_ofOption (s : Option CommandSchema) :
    (ofOption toJson s).PresentedBy (ofOption toJson s) :=
  Json.presentedBy_ofOption fun _ _ => .self (by simp) (by simp)

theorem OptionSchema.presentedBy_ofOption (s : Option OptionSchema) :
    (ofOption toJson s).PresentedBy (ofOption toJson s) :=
  Json.presentedBy_ofOption fun _ _ => .self (by simp) (by simp)

theorem Word.presentedBy_self (w : Word) : (obj w.members).PresentedBy (.obj w.members) :=
  .self (by simp [members]) (by simp [members])

theorem Flag.presentedBy_self (o : Flag) : (obj o.members).PresentedBy (.obj o.members) :=
  .self (by simp [members]) (by simp [members, OptionSchema.presentedBy_ofOption])

theorem Redirect.values_presentedBy_self (r : Redirect) : ∀ m ∈ r.members, m.2.PresentedBy m.2 := by
  have hdescriptor (d : Option Nat) : (ofOption .ofNat d).PresentedBy (.ofOption .ofNat d) :=
    Json.presentedBy_ofOption fun _ _ => presentedBy_ofNat_iff.mpr rfl
  have hword (w : Option Word) : (ofOption (fun w : Word => .obj w.members) w).PresentedBy
      (.ofOption (fun w => .obj w.members) w) :=
    Json.presentedBy_ofOption fun w _ => w.presentedBy_self
  simp [members, hdescriptor, hword]

/-! ### What has been read fits -/

theorem Word.fits_of_read {v : Json} {w : Word} (h : fields.read v = .ok w) : w.span.Fits := by
  obtain ⟨get, absent, hw⟩ := exists_reads_of_read (by decide) h
  exact Span.fits_of_reads (reads_iff.mp hw).1

theorem Flag.fits_of_read {v : Json} {o : Flag} (h : fields.read v = .ok o) : o.span.Fits := by
  obtain ⟨get, absent, ho⟩ := exists_reads_of_read (by decide) h
  exact Span.fits_of_reads (reads_iff.mp ho).1

end Records

/-! ## Nodes as they are written -/

namespace Node

open Fields

/-- The members of a node, its kind aside. -/
def members : Node → List (String × Json)
  | program p => p.members
  | subcommand s => s.members
  | option o => o.members
  | optionWithArg o => o.members
  | sticky s w os =>
    [("position", s.toJson), ("word", .str w), ("options", .arr (os.map toJson))]
  | assignment a => a.members
  | redirect r => r.members
  | word _ w => w.members
  | group _ s ps => [("position", s.toJson), ("parts", .arr (ps.map toJson))]

/-- The kind of a node is written first. -/
theorem toJson_eq (n : Node) :
    n.toJson = .obj (("kind", .str n.kind.name) :: n.members) := by
  cases n <;> simp [toJson, members, kind, Kind.name]

/-- A node is written with all the fields of its kind, in order. -/
theorem map_fst_members (n : Node) : n.members.map Prod.fst = (fields n.kind).names := by
  cases n with
  | word k w => rw [kind, fields_wordKind]; rfl
  | group k s ps => rw [kind, fields_groupKind]; rfl
  | _ => rfl

section Presented

variable {get : String → Option Json} {absent : String → DecodeError} {v : Json}

/-- A node whose numbers fit is described by whatever is found of its members. -/
theorem reads_of_found {n : Node} (hfits : n.Fits)
    (hchildren : ∀ c ∈ n.children, Json.Recovers ofInnerJson c.toJson c)
    (hfound : ∀ m ∈ n.members, Json.Found get m) :
    ((fields n.kind).comap slot).Reads get absent n := by
  obtain ⟨hspans, hdescriptors, -⟩ := hfits
  have hspan : n.span.Fits := hspans _ n.span_mem_spans
  have hnodes {name : String} (hname : name ∉ Json.omittable.map Prod.fst)
      (h : Json.Found get (name, .arr (n.children.map toJson))) :
      (required name (Json.readList ofInnerJson)).Reads get absent n.children :=
    reads_required_of_found (Json.recovers_list hchildren) hname h
  rw [reads_comap_iff]
  cases n with
  | program p => exact flat_reads_slot_iff.mpr ⟨p, Program.reads_of_found hspan hfound, rfl⟩
  | subcommand s => exact flat_reads_slot_iff.mpr ⟨s, Subcommand.reads_of_found hspan hfound, rfl⟩
  | option o => exact flat_reads_slot_iff.mpr ⟨o, Flag.reads_of_found hspan hfound, rfl⟩
  | optionWithArg o =>
    have hoption : o.option.span.Fits := hspans _ (by simp [spans])
    have hargument : o.argument.span.Fits := hspans _ (by simp [spans])
    exact flat_reads_slot_iff.mpr
      ⟨o, BoundFlag.reads_of_found hspan hoption hargument hfound, rfl⟩
  | sticky s w os =>
    simp only [members, List.forall_mem_cons] at hfound
    obtain ⟨hposition, hword, hoptions, -⟩ := hfound
    exact sticky_reads_slot_iff.mpr ⟨s, w, os, Span.reads_of_found hspan hposition,
      reads_text_of_found (by decide) hword, hnodes (by decide) hoptions, rfl⟩
  | assignment a => exact flat_reads_slot_iff.mpr ⟨a, Assignment.reads_of_found hspan hfound, rfl⟩
  | redirect r =>
    have hinput : ∀ d ∈ r.input, d < wordCount 32 := fun d hd =>
      hdescriptors d (by simp_all [descriptors])
    have hfd : ∀ d ∈ r.outputFd, d < wordCount 32 := fun d hd =>
      hdescriptors d (by simp_all [descriptors])
    have houtput : ∀ w ∈ r.output, w.span.Fits := fun w hw => hspans _ (by simp_all [spans])
    exact flat_reads_slot_iff.mpr
      ⟨r, Redirect.reads_of_found hspan hinput houtput hfd hfound, rfl⟩
  | word k w =>
    rw [kind, fields_wordKind]
    exact flat_reads_slot_iff.mpr ⟨w, Word.reads_of_found hspan hfound, rfl⟩
  | group k s ps =>
    simp only [members, List.forall_mem_cons] at hfound
    obtain ⟨hposition, hparts, -⟩ := hfound
    rw [kind, fields_groupKind]
    exact groupFields_reads_slot_iff.mpr ⟨s, ps, Span.reads_of_found hspan hposition,
      hnodes (by decide) hparts, rfl⟩

/-- The members of a node, its kind aside, are read as that node. -/
theorem recovers_members {n : Node} (hfits : n.Fits)
    (hchildren : ∀ c ∈ n.children, Json.Recovers ofInnerJson c.toJson c) :
    Json.Recovers ((fields n.kind).comap slot).read (.obj n.members) n := by
  refine Fields.recovers ?_ ?_ fun _ _ => reads_of_found hfits hchildren
  · rw [names_comap]
    exact nodup_names n.kind
  · rw [names_comap]
    exact n.map_fst_members

/-- A node that is known by its kind, read in one way or the other, and then by its members. -/
def ofKinded (readKind : Json → Decoded Kind) : Json → Decoded Node
  | .obj members => ofMembers readKind (memberSlots members)
  | .arr items => ofItems readKind (itemSlots items)
  | _ => .error .invalidType

theorem ofJson_eq_ofKinded : ofJson = ofKinded Kind.ofJson := by
  funext v
  cases v <;> rfl

theorem ofInnerJson_eq_ofKinded : ofInnerJson = ofKinded Kind.ofJsonOrNumber := by
  funext v
  cases v <;> rfl

theorem ofKinded_obj_of_kind {readKind : Json → Decoded Kind} {k : Kind}
    {ms : List (String × Json)} (h : findKind readKind none ms = .ok (some k)) :
    ofKinded readKind (.obj ms) = ((fields k).comap slot).readMembers ms := by
  rw [readMembers_comap, ← memberSlots_eq_map, ofKinded, ofMembers, map_value_memberSlots, h]
  rfl

theorem recovers_ofKinded {readKind : Json → Decoded Kind} {n : Node}
    (hkind : readKind (.str n.kind.name) = .ok n.kind) (hfits : n.Fits)
    (hchildren : ∀ c ∈ n.children, Json.Recovers ofInnerJson c.toJson c) :
    Json.Recovers (ofKinded readKind) n.toJson n := by
  have hmembers := recovers_members hfits hchildren
  have hkept : ("kind", Json.str n.kind.name) ∉ Json.omittable := by simp [Json.omittable]
  intro v h
  rw [toJson_eq] at h
  cases v with
  | obj ms =>
    have hfound : findKind readKind none ms = .ok (some n.kind) := by
      have honce := (Json.presentedBy_obj_iff.mp h).1
      obtain ⟨w, hw, hname⟩ | ⟨-, homit⟩ := h.found _ List.mem_cons_self
      · rw [Json.presentedBy_str_iff.mp hname] at hw
        exact findKind_eq_ok_some honce (by simp) hw hkind
      · exact absurd homit hkept
    have hread := hmembers _ h.tail
    rw [ofKinded_obj_of_kind hfound]
    exact hread
  | arr vs =>
    have hfirst := (List.nodup_cons.mp (nodup_kind_names n.kind)).1
    rw [← map_fst_members] at hfirst
    obtain ⟨w, rest, rfl, hw, hrest⟩ := h.row_tail hfirst hkept
    have hread := hmembers _ hrest
    rw [Fields.read, readItems_comap, ← itemSlots_eq_map] at hread
    rw [ofKinded, itemSlots, ofItems, Json.presentedBy_str_iff.mp hw, hkind]
    exact hread
  | null | bool | num | str => cases h

theorem recovers_ofInnerJson {n : Node} (h : n.Fits) : Json.Recovers ofInnerJson n.toJson n := by
  induction h with
  | @node n hspans hdescriptors hbelow ih =>
    -- a kind may also be a number here, but what is written is its name
    have hkind : Kind.ofJsonOrNumber (.str n.kind.name) = .ok n.kind := by
      simp [Kind.ofJsonOrNumber, Kind.ofJson]
    rw [ofInnerJson_eq_ofKinded]
    refine recovers_ofKinded hkind ⟨hspans, hdescriptors, hbelow⟩ ih

theorem recovers_ofJson {n : Node} (h : n.Fits) : Json.Recovers ofJson n.toJson n := by
  have hkind : Kind.ofJson (.str n.kind.name) = .ok n.kind := by simp [Kind.ofJson]
  have hchildren (c : Node) (hc : c ∈ n.children) : Json.Recovers ofInnerJson c.toJson c := by
    obtain ⟨-, -, hbelow⟩ := h
    exact recovers_ofInnerJson (hbelow c hc)
  rw [ofJson_eq_ofKinded]
  exact recovers_ofKinded hkind h hchildren

end Presented

/-! ## What is written presents itself -/

theorem values_presentedBy_self {n : Node} (h : ∀ c ∈ n.children, c.toJson.PresentedBy c.toJson) :
    ∀ m ∈ n.members, m.2.PresentedBy m.2 := by
  have hnodes : List.Forall₂ Json.PresentedBy (n.children.map toJson) (n.children.map toJson) := by
    rw [List.forall₂_map_left_iff, List.forall₂_map_right_iff, List.forall₂_same]
    exact h
  cases n with
  | program p => simp [members, Program.members, CommandSchema.presentedBy_ofOption]
  | subcommand s => simp [members, Subcommand.members, CommandSchema.presentedBy_ofOption]
  | option o => simp [members, Flag.members, OptionSchema.presentedBy_ofOption]
  | optionWithArg o =>
    simp [members, BoundFlag.members, Flag.presentedBy_self, Word.presentedBy_self]
  | sticky s w os => simpa [members] using Json.PresentedBy.arr hnodes
  | assignment a => simp [members, Assignment.members]
  | redirect r => exact r.values_presentedBy_self
  | word k w => simp [members, Word.members]
  | group k s ps => simpa [members] using Json.PresentedBy.arr hnodes

/-- What is written lists every field once, so it is one of its presentations. -/
theorem presentedBy_toJson (n : Node) : n.toJson.PresentedBy n.toJson := by
  induction n using induct_children with
  | step n ih =>
    rw [toJson_eq]
    refine .self ?_ (List.forall_mem_cons.mpr ⟨.str _, values_presentedBy_self ih⟩)
    rw [List.map_cons, map_fst_members]
    exact nodup_kind_names n.kind

theorem ofJson_toJson {n : Node} (h : n.Fits) : ofJson n.toJson = .ok n :=
  recovers_ofJson h _ n.presentedBy_toJson

variable {get : String → Option Slot} {absent : String → DecodeError}

/-! ## What has been read fits -/

/-- Most nodes hold no numbers but the offsets of their own span. -/
theorem Fits.of_span {n : Node} (hspan : n.span.Fits) (hspans : n.spans = [n.span])
    (hdescriptors : n.descriptors = []) (hchildren : ∀ c ∈ n.children, c.Fits) : n.Fits := by
  refine ⟨fun s hs => ?_, fun d hd => ?_, hchildren⟩
  · rw [hspans, List.mem_singleton] at hs
    exact hs ▸ hspan
  · rw [hdescriptors] at hd
    cases hd

/-- A node that is read holds numbers that fit if the nodes found for it do. -/
theorem fits_of_reads {k : Kind} {n : Node} (h : (fields k).Reads get absent n)
    (hslots : ∀ name s, get name = some s → ∀ ns, s.nodes = .ok ns → ∀ c ∈ ns, c.Fits) :
    n.Fits := by
  cases k with
  | program =>
    obtain ⟨p, hp, rfl⟩ := flat_reads_iff.mp h
    have hspan := Span.fits_of_reads (Program.reads_iff.mp hp).1
    exact .of_span hspan rfl rfl (List.forall_mem_nil _)
  | subcommand =>
    obtain ⟨s, hs, rfl⟩ := flat_reads_iff.mp h
    have hspan := Span.fits_of_reads (Subcommand.reads_iff.mp hs).1
    exact .of_span hspan rfl rfl (List.forall_mem_nil _)
  | option =>
    obtain ⟨o, ho, rfl⟩ := flat_reads_iff.mp h
    have hspan := Span.fits_of_reads (Flag.reads_iff.mp ho).1
    exact .of_span hspan rfl rfl (List.forall_mem_nil _)
  | optionWithArg =>
    obtain ⟨o, ho, rfl⟩ := flat_reads_iff.mp h
    obtain ⟨hposition, hoption, hargument⟩ := BoundFlag.reads_iff.mp ho
    obtain ⟨v, -, hv⟩ := reads_required_iff.mp hoption
    obtain ⟨v', -, hv'⟩ := reads_required_iff.mp hargument
    refine ⟨?_, List.forall_mem_nil _, List.forall_mem_nil _⟩
    simp only [spans, List.forall_mem_cons]
    exact ⟨Span.fits_of_reads hposition, Flag.fits_of_read hv, Word.fits_of_read hv',
      List.forall_mem_nil _⟩
  | stickyOption =>
    obtain ⟨s, w, os, hposition, -, ⟨v, hv, hos⟩, rfl⟩ := sticky_reads_iff.mp h
    exact .of_span (Span.fits_of_reads hposition) rfl rfl (hslots _ v hv os hos)
  | assignment =>
    obtain ⟨a, ha, rfl⟩ := flat_reads_iff.mp h
    have hspan := Span.fits_of_reads (Assignment.reads_iff.mp ha).1
    exact .of_span hspan rfl rfl (List.forall_mem_nil _)
  | redirect =>
    obtain ⟨r, hr, rfl⟩ := flat_reads_iff.mp h
    obtain ⟨hposition, -, hinput, houtput, hfd⟩ := Redirect.reads_iff.mp hr
    have hword (w : Word) (hw : w ∈ r.output) : w.span.Fits := by
      obtain ⟨v, hv⟩ := read_of_reads_optional houtput hw
      exact Word.fits_of_read hv
    have hdescriptor {name : String} {fd : Option Nat} {d : Nat} (hd : d ∈ fd)
        (hread : (optional name none (Json.readOption (Json.readNat 32))).Reads
          (fun name => (get name).map Slot.value) absent fd) : d < wordCount 32 := by
      obtain ⟨v, hv⟩ := read_of_reads_optional hread hd
      exact (Json.readNat_eq_ok_iff.mp hv).2
    refine ⟨?_, fun d hd => ?_, List.forall_mem_nil _⟩
    · simp only [spans, List.forall_mem_cons, List.forall_mem_map, Option.mem_toList]
      exact ⟨Span.fits_of_reads hposition, hword⟩
    · simp only [descriptors, List.mem_append, Option.mem_toList] at hd
      rcases hd with hd | hd
      · exact hdescriptor hd hinput
      · exact hdescriptor hd hfd
  | argument | operator | pipe | reservedWord | word | superuser =>
    obtain ⟨w, hw, rfl⟩ := flat_reads_iff.mp h
    have hspan := Span.fits_of_reads (Word.reads_iff.mp hw).1
    exact .of_span hspan rfl rfl (List.forall_mem_nil _)
  | command | list | pipeline =>
    obtain ⟨s, ps, hposition, ⟨v, hv, hps⟩, rfl⟩ := groupFields_reads_iff.mp h
    exact .of_span (Span.fits_of_reads hposition) rfl rfl (hslots _ v hv ps hps)

theorem fits_of_ofMembers {readKind : Json → Decoded Kind} {ms : List (String × Slot)} {n : Node}
    (h : ofMembers readKind ms = .ok n)
    (hslots : ∀ m ∈ ms, ∀ ns, m.2.nodes = .ok ns → ∀ c ∈ ns, c.Fits) : n.Fits := by
  obtain ⟨found, -, h⟩ := bind_eq_ok_iff.mp h
  cases found with
  | none => cases h
  | some k =>
    refine fits_of_reads ((readMembers_eq_ok_iff (nodup_names k)).mp h).2 fun name s hs => ?_
    exact hslots (name, s) (mem_of_lookup_eq_some hs)

theorem fits_of_ofItems {readKind : Json → Decoded Kind} {ss : List Slot} {n : Node}
    (h : ofItems readKind ss = .ok n)
    (hslots : ∀ s ∈ ss, ∀ ns, s.nodes = .ok ns → ∀ c ∈ ns, c.Fits) : n.Fits := by
  cases ss with
  | nil => cases h
  | cons kind rest =>
    obtain ⟨k, -, h⟩ := bind_eq_ok_iff.mp h
    refine fits_of_reads ((readItems_eq_ok_iff (nodup_names k)).mp h).2 fun name s hs => ?_
    exact hslots s (List.mem_cons_of_mem _ (List.of_mem_zip (mem_of_lookup_eq_some hs)).2)

/-- Nodes that stand inside another hold numbers that fit, one by one or as a list. -/
theorem fits_of_inner (v : Json) :
    (∀ n, ofInnerJson v = .ok n → n.Fits) ∧
      ∀ ns, listOfInnerJson v = .ok ns → ∀ n ∈ ns, n.Fits := by
  induction v with
  | arr items ih =>
    refine ⟨fun n h => fits_of_ofItems h ?_, fun ns h => ?_⟩
    · rw [itemSlots_eq_map, List.forall_mem_map]
      exact fun v hv => (ih v hv).2
    · rw [listOfInnerJson, listOfItems_eq_mapM] at h
      intro n hn
      obtain ⟨v, hv, hread⟩ := exists_mem_of_mapM_eq_ok h hn
      exact (ih v hv).1 n hread
  | obj members ih =>
    refine ⟨fun n h => fits_of_ofMembers h ?_, fun ns h => nomatch h⟩
    rw [memberSlots_eq_map, List.forall_mem_map]
    exact fun m hm => (ih m hm).2
  | null | bool | num | str => exact ⟨(fun n h => nomatch h), fun ns h => nomatch h⟩

/-- Whatever is read as a node holds numbers that fit. -/
theorem fits_of_ofJson {v : Json} {n : Node} (h : ofJson v = .ok n) : n.Fits := by
  cases v with
  | arr items =>
    refine fits_of_ofItems h ?_
    rw [itemSlots_eq_map, List.forall_mem_map]
    exact fun v _ => (fits_of_inner v).2
  | obj members =>
    refine fits_of_ofMembers h ?_
    rw [memberSlots_eq_map, List.forall_mem_map]
    exact fun m _ => (fits_of_inner m.2).2
  | null | bool | num | str => cases h

/-! ## Reading back what was written -/

/-- Reading a written node gives the node back exactly when its numbers fit. So does
reading again what was read and written, however sparsely it had been presented; for
what is written lists every field, of nodes and of what they say about commands and
options, in order. -/
theorem round_trip :
    (∀ n : Node, ofJson n.toJson = .ok n ↔ n.Fits) ∧
      (∀ v n, ofJson v = .ok n → ofJson n.toJson = .ok n) ∧
      (∀ n : Node, ∃ ms, n.toJson = .obj (("kind", .str n.kind.name) :: ms) ∧
        ms.map Prod.fst = (fields n.kind).names) ∧
      (∀ s : CommandSchema, ∃ ms, s.toJson = .obj ms ∧
        ms.map Prod.fst = CommandSchema.fields.names) ∧
      ∀ s : OptionSchema, ∃ ms, s.toJson = .obj ms ∧
        ms.map Prod.fst = OptionSchema.fields.names := by
  refine ⟨fun n => ⟨fits_of_ofJson, ofJson_toJson⟩, fun v n h => ?_, fun n => ?_, fun s => ?_,
    fun s => ?_⟩
  · exact ofJson_toJson (fits_of_ofJson h)
  · exact ⟨n.members, n.toJson_eq, n.map_fst_members⟩
  · exact ⟨_, rfl, rfl⟩
  · exact ⟨_, rfl, rfl⟩

/-- A command presented sparsely: a schema without its summary, a word as an array that
begins with the number of its kind, a redirect without its input and its output. -/
def sparseCommand : Json :=
  .obj [
    ("parts", .arr [
      .obj [("word", .str "ls"), ("name", .str "ls"), ("position", .arr [.ofNat 0, .ofNat 2]),
        ("kind", .str "program"), ("schema", .obj [("name", .str "ls")])],
      .arr [.num (.int 11), .arr [.ofNat 3, .ofNat 4], .str "x"],
      .obj [("kind", .str "redirect"), ("type", .obj [(">&", .null)]),
        ("output_fd", .ofNat 4294967295),
        ("position", .arr [.ofNat 5, .ofNat 18446744073709551615])]]),
    ("kind", .str "command"),
    ("position", .arr [.ofNat 0, .ofNat 18446744073709551615])]

/-- The command that `sparseCommand` presents. Its numbers are the largest that fit. -/
def fullCommand : Node :=
  .group .command ⟨0, 18446744073709551615⟩ [
    .program ⟨⟨0, 2⟩, "ls", "ls", some ⟨"ls", ""⟩⟩,
    .word .word ⟨⟨3, 4⟩, "x"⟩,
    .redirect ⟨⟨5, 18446744073709551615⟩, .duplicate, none, none, some 4294967295⟩]

theorem round_trip_sparseCommand :
    ofJson sparseCommand = .ok fullCommand ∧ ofJson fullCommand.toJson = .ok fullCommand ∧
      fullCommand.Fits := by
  have hread : ofJson sparseCommand = .ok fullCommand := rfl
  have hback := round_trip.2.1 sparseCommand fullCommand hread
  exact ⟨hread, hback, (round_trip.1 fullCommand).mp hback⟩

end Node

end ShellGloss
