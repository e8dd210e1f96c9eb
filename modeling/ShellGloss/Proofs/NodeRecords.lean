import Mathlib.Tactic.Simproc.ExistsAndEq
import ShellGloss.Node.Decode
import ShellGloss.Node.Encode
import ShellGloss.Proofs.Records

/-!
# The records of a node

What the readers of a node read. A number is read from one value only, and so is a
span. Each record that is a node, or part of one, has an equation that says what its
fields read (`Program.reads_iff` and so on), and so has each family of nodes: those
made of one record, those made of parts, and the sticky word.
-/

namespace ShellGloss

open ShellGloss.Number (wordCount)

/-! ## Values of a single field -/

namespace Json

theorem readNat_eq_ok_iff {bits n : Nat} {v : Json} :
    v.readNat bits = .ok n ↔ v = ofNat n ∧ n < wordCount bits := by
  constructor
  · intro h
    unfold readNat at h
    split at h
    · rename_i z
      split at h
      · rename_i hfits
        obtain ⟨hnonneg, hlt⟩ := Number.fitsUnsigned_iff.mp hfits
        obtain rfl : z.toNat = n := Except.ok.inj h
        exact ⟨by rw [ofNat, Int.toNat_of_nonneg hnonneg], by omega⟩
      · split at h <;> cases h
    · cases h
  · rintro ⟨rfl, hlt⟩
    simp [ofNat, readNat, Number.fitsUnsigned_natCast.mpr hlt]

theorem read_of_readOption {α : Type} {read : Json → Decoded α} {v : Json} {x : α}
    (h : readOption read v = .ok (some x)) : read v = .ok x := by
  unfold readOption at h
  split at h
  · cases h
  · obtain ⟨y, hy, hyx⟩ := map_eq_ok_iff.mp h
    rw [hy, Option.some.inj hyx]

end Json

/-! ## Spans -/

/-- The offsets fit into 64 bits. -/
def Span.Fits (s : Span) : Prop :=
  s.start < wordCount 64 ∧ s.stop < wordCount 64

instance (s : Span) : Decidable s.Fits :=
  inferInstanceAs (Decidable (s.start < wordCount 64 ∧ s.stop < wordCount 64))

theorem Span.ofJson_eq_ok_iff {v : Json} {s : Span} :
    ofJson v = .ok s ↔ v = s.toJson ∧ s.Fits := by
  constructor
  · intro h
    unfold ofJson at h
    split at h
    · rename_i items
      split at h
      · cases h
      · obtain ⟨_, _, h⟩ := bind_eq_ok_iff.mp h
        cases h
      · simp only [bind_eq_ok_iff, Json.readNat_eq_ok_iff] at h
        obtain ⟨start, ⟨rfl, hstart⟩, stop, ⟨rfl, hstop⟩, h⟩ := h
        split at h
        · rename_i hrest
          obtain rfl : Span.mk start stop = s := Except.ok.inj h
          rw [List.isEmpty_iff.mp hrest]
          exact ⟨rfl, hstart, hstop⟩
        · cases h
    · cases h
  · rintro ⟨rfl, hstart, hstop⟩
    have hreadStart := Json.readNat_eq_ok_iff.mpr ⟨rfl, hstart⟩
    have hreadStop := Json.readNat_eq_ok_iff.mpr ⟨rfl, hstop⟩
    simp only [toJson, ofJson, hreadStart, hreadStop]
    rfl

/-! ## Records -/

section Records

open Fields Json

variable {get : String → Option Json} {absent : String → DecodeError}

theorem CommandSchema.reads_iff {s : CommandSchema} :
    fields.Reads get absent s ↔
      (required "name" readText).Reads get absent s.name ∧
        (optional "summary" "" readText).Reads get absent s.summary := by
  obtain ⟨name, summary⟩ := s
  simp [fields]

theorem OptionSchema.reads_iff {s : OptionSchema} :
    fields.Reads get absent s ↔
      (optional "long" [] (readList readText)).Reads get absent s.long ∧
        (optional "short" [] (readList readText)).Reads get absent s.short ∧
        (optional "summary" "" readText).Reads get absent s.summary ∧
        (optional "expectsArg" false readBool).Reads get absent s.expectsArg ∧
        (optional "argInNextToken" false readBool).Reads get absent s.argInNextToken := by
  obtain ⟨long, short, summary, expectsArg, argInNextToken⟩ := s
  simp [fields, and_assoc, -Bool.exists_bool]

theorem Word.reads_iff {w : Word} :
    fields.Reads get absent w ↔
      Span.field.Reads get absent w.span ∧ (required "word" readText).Reads get absent w.word := by
  obtain ⟨span, word⟩ := w
  simp [fields, Span.field]

theorem Program.reads_iff {p : Program} :
    fields.Reads get absent p ↔
      Span.field.Reads get absent p.span ∧ (required "word" readText).Reads get absent p.word ∧
        (required "name" readText).Reads get absent p.name ∧
        (optional "schema" none (readOption CommandSchema.fields.read)).Reads get absent
          p.schema := by
  obtain ⟨span, word, name, schema⟩ := p
  simp [fields, Span.field, and_assoc]

theorem Subcommand.reads_iff {s : Subcommand} :
    fields.Reads get absent s ↔
      Span.field.Reads get absent s.span ∧ (required "word" readText).Reads get absent s.word ∧
        (optional "schema" none (readOption CommandSchema.fields.read)).Reads get absent
          s.schema := by
  obtain ⟨span, word, schema⟩ := s
  simp [fields, Span.field]

theorem Flag.reads_iff {o : Flag} :
    fields.Reads get absent o ↔
      Span.field.Reads get absent o.span ∧ (required "word" readText).Reads get absent o.word ∧
        (required "opt" readText).Reads get absent o.name ∧
        (optional "optionSchema" none (readOption OptionSchema.fields.read)).Reads get absent
          o.schema := by
  obtain ⟨span, word, name, schema⟩ := o
  simp [fields, Span.field, and_assoc]

theorem BoundFlag.reads_iff {o : BoundFlag} :
    fields.Reads get absent o ↔
      Span.field.Reads get absent o.span ∧
        (required "option" Flag.fields.read).Reads get absent o.option ∧
        (required "argument" Word.fields.read).Reads get absent o.argument := by
  obtain ⟨span, option, argument⟩ := o
  simp [fields, Span.field]

theorem Assignment.reads_iff {a : Assignment} :
    fields.Reads get absent a ↔
      Span.field.Reads get absent a.span ∧ (required "name" readText).Reads get absent a.name ∧
        (required "value" readText).Reads get absent a.value := by
  obtain ⟨span, name, value⟩ := a
  simp [fields, Span.field]

theorem Redirect.reads_iff {r : Redirect} :
    fields.Reads get absent r ↔
      Span.field.Reads get absent r.span ∧
        (required "type" RedirectOp.ofJson).Reads get absent r.op ∧
        (optional "input" none (readOption (readNat 32))).Reads get absent r.input ∧
        (optional "output" none (readOption Word.fields.read)).Reads get absent r.output ∧
        (optional "output_fd" none (readOption (readNat 32))).Reads get absent r.outputFd := by
  obtain ⟨span, op, input, output, outputFd⟩ := r
  simp [fields, Span.field, and_assoc]

/-- A span that is read holds offsets that fit. -/
theorem Span.fits_of_reads {s : Span} (h : field.Reads get absent s) : s.Fits := by
  obtain ⟨v, -, hv⟩ := reads_required_iff.mp h
  exact (ofJson_eq_ok_iff.mp hv).2

theorem read_of_reads_optional {α : Type} {name : String} {read : Json → Decoded α}
    {a : Option α} (h : (optional name none (readOption read)).Reads get absent a) {x : α}
    (hx : x ∈ a) : ∃ v, read v = .ok x := by
  obtain rfl : a = some x := hx
  rcases reads_optional_iff.mp h with ⟨-, hnone⟩ | ⟨v, -, hv⟩
  · cases hnone
  · exact ⟨v, read_of_readOption hv⟩

end Records

/-! ## Nodes -/

namespace Node

open Fields

theorem fields_wordKind (k : WordKind) : fields k.kind = flat (word k) Word.fields := by
  cases k <;> rfl

theorem fields_groupKind (k : GroupKind) : fields k.kind = groupFields k := by
  cases k <;> rfl

/-- No field is called as another or as the kind. -/
theorem nodup_kind_names (k : Kind) : ("kind" :: (fields k).names).Nodup := by
  cases k <;> decide

theorem nodup_names (k : Kind) : (fields k).names.Nodup :=
  (List.nodup_cons.mp (nodup_kind_names k)).2

variable {get : String → Option Slot} {absent : String → DecodeError}

@[simp] theorem flat_reads_iff {α : Type} {make : α → Node} {f : Fields Json α} {n : Node} :
    (flat make f).Reads get absent n ↔
      ∃ a, f.Reads (fun name => (get name).map Slot.value) absent a ∧ make a = n := by
  simp [flat]

@[simp] theorem groupFields_reads_iff {k : GroupKind} {n : Node} :
    (groupFields k).Reads get absent n ↔
      ∃ s ps, Span.field.Reads (fun name => (get name).map Slot.value) absent s ∧
        (∃ v, get "parts" = some v ∧ v.nodes = .ok ps) ∧ group k s ps = n := by
  simp [groupFields]

theorem sticky_reads_iff {n : Node} :
    (fields .stickyOption).Reads get absent n ↔
      ∃ s w os, Span.field.Reads (fun name => (get name).map Slot.value) absent s ∧
        (∃ v, get "word" = some v ∧ v.value.readText = .ok w) ∧
        (∃ v, get "options" = some v ∧ v.nodes = .ok os) ∧ sticky s w os = n := by
  simp [fields]

/-! ### Nodes among JSON values -/

theorem listOfInnerJson_eq_readList (v : Json) : listOfInnerJson v = v.readList ofInnerJson := by
  cases v with
  | arr items => exact listOfItems_eq_mapM items
  | null | bool | num | str | obj => rfl

section Values

variable {get : String → Option Json}

/-- Of slots that are made of values, the values are found again. -/
theorem map_value_map_slot : (fun name => ((get name).map slot).map Slot.value) = get := by
  funext name
  cases get name <;> rfl

theorem flat_reads_slot_iff {α : Type} {make : α → Node} {f : Fields Json α} {n : Node} :
    (flat make f).Reads (fun name => (get name).map slot) absent n ↔
      ∃ a, f.Reads get absent a ∧ make a = n := by
  rw [flat_reads_iff, map_value_map_slot]

theorem groupFields_reads_slot_iff {k : GroupKind} {n : Node} :
    (groupFields k).Reads (fun name => (get name).map slot) absent n ↔
      ∃ s ps, Span.field.Reads get absent s ∧
        (required "parts" (Json.readList ofInnerJson)).Reads get absent ps ∧ group k s ps = n := by
  rw [groupFields_reads_iff, map_value_map_slot]
  simp [slot, listOfInnerJson_eq_readList]

theorem sticky_reads_slot_iff {n : Node} :
    (fields .stickyOption).Reads (fun name => (get name).map slot) absent n ↔
      ∃ s w os, Span.field.Reads get absent s ∧
        (required "word" Json.readText).Reads get absent w ∧
        (required "options" (Json.readList ofInnerJson)).Reads get absent os ∧
        sticky s w os = n := by
  rw [sticky_reads_iff, map_value_map_slot]
  simp [slot, listOfInnerJson_eq_readList]

end Values

/-- Only the members called `kind` count in the search for the kind. -/
theorem findKind_eq_filter (readKind : Json → Decoded Kind) (found : Option Kind)
    (ms : List (String × Json)) :
    findKind readKind found ms = findKind readKind found (ms.filter fun m => m.1 = "kind") := by
  induction ms generalizing found with
  | nil => rfl
  | cons m ms ih =>
    obtain ⟨name, v⟩ := m
    by_cases hname : name = "kind"
    · subst hname
      cases found with
      | some k => simp [findKind]
      | none =>
        simp only [findKind, List.filter_cons, decide_true, if_true]
        cases readKind v with
        | error e => rfl
        | ok k => exact ih (some k)
    · simp [findKind, hname, ih]

/-- The search finds the kind of a node whose members have one `kind`. -/
theorem findKind_of_filter {readKind : Json → Decoded Kind} {k : Kind} {v : Json}
    {ms : List (String × Json)} (hk : readKind v = .ok k)
    (h : ms.filter (fun m => m.1 = "kind") = [("kind", v)]) :
    findKind readKind none ms = .ok (some k) := by
  rw [findKind_eq_filter, h]
  simp only [findKind, hk]
  rfl

/-- The only `kind` among the members is the one that is found. -/
theorem findKind_eq_ok_some {readKind : Json → Decoded Kind} {k : Kind} {p : String → Bool}
    {ms : List (String × Json)} {v : Json} (honce : ((ms.map Prod.fst).filter p).Nodup)
    (hp : p "kind" = true) (hv : ms.lookup "kind" = some v) (hk : readKind v = .ok k) :
    findKind readKind none ms = .ok (some k) := by
  obtain ⟨before, after, rfl, hbefore⟩ := List.lookup_eq_some_iff.mp hv
  have hbefore' : before.filter (fun m => m.1 = "kind") = [] := by
    rw [List.filter_eq_nil_iff]
    intro m hm hname
    simpa [of_decide_eq_true hname] using hbefore m hm
  have hafter : after.filter (fun m => m.1 = "kind") = [] := by
    rw [List.map_append, List.map_cons, List.filter_append, List.filter_cons_of_pos hp] at honce
    have hnot := (List.nodup_cons.mp (List.nodup_append.mp honce).2.1).1
    rw [List.filter_eq_nil_iff]
    intro m hm hname
    have hin := List.mem_map_of_mem (f := Prod.fst) hm
    rw [of_decide_eq_true hname] at hin
    exact hnot (List.mem_filter.mpr ⟨hin, hp⟩)
  refine findKind_of_filter hk ?_
  rw [List.filter_append, List.filter_cons_of_pos (by simp), hbefore', hafter]
  rfl

theorem map_value_memberSlots (ms : List (String × Json)) :
    ((memberSlots ms).map fun m => (m.1, m.2.value)) = ms := by
  simp [memberSlots_eq_map, Function.comp_def, slot]

end Node

end ShellGloss
