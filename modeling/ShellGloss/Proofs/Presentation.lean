import Mathlib.Data.List.Forall2
import Mathlib.Data.List.Nodup
import ShellGloss.Proofs.NodeRecords

/-!
# Presentations of a written value

A record can be written down in many ways: its fields in any order, among members
that are no fields, without those that may be left out, or in an array by their
places. `Json.PresentedBy` holds of a written value, in which every object lists all
fields of a record, and of whatever presents it, with the choice made anew at every
object inside.

Whoever reads a record sees of its presentation only what is found under the names
of the fields (`Json.Found`): a value that presents what was written, or nothing
where that may be left out. So a record is recovered from all its presentations if its
fields read whatever is found of them (`Fields.recovers`).
-/

namespace ShellGloss

namespace Json

open Fields (lookup_eq_some_of_mem mem_of_lookup_eq_some)

/-! ## Presentations -/

/-- The members that may be left out: those of the optional fields of all records, with
the values that the fields have without them. No other field has such a name. -/
def omittable : List (String × Json) :=
  [("schema", .null), ("optionSchema", .null), ("input", .null), ("output", .null),
    ("output_fd", .null), ("long", .arr []), ("short", .arr []), ("summary", .str ""),
    ("expectsArg", .bool false), ("argInNextToken", .bool false)]

/-- A written value and what presents it. Of an object whose members are the fields of a
record, another object names no field twice, presents those that it names and omits
only what may be left out; its other members are arbitrary. An array presents the
object if it does with the names of the fields before its items, in order. -/
inductive PresentedBy : Json → Json → Prop where
  | null : PresentedBy .null .null
  | bool (b : Bool) : PresentedBy (.bool b) (.bool b)
  | num (n : Number) : PresentedBy (.num n) (.num n)
  | str (s : String) : PresentedBy (.str s) (.str s)
  | arr {vs ws : List Json} (items : List.Forall₂ PresentedBy vs ws) :
      PresentedBy (.arr vs) (.arr ws)
  | obj {ms ms' : List (String × Json)}
      (once : ((ms'.map Prod.fst).filter fun name => name ∈ ms.map Prod.fst).Nodup)
      (named : ∀ m ∈ ms, ∀ w, ms'.lookup m.1 = some w → PresentedBy m.2 w)
      (omitted : ∀ m ∈ ms, ms'.lookup m.1 = none → m ∈ omittable) :
      PresentedBy (.obj ms) (.obj ms')
  | row {ms : List (String × Json)} {ws : List Json} (short : ws.length ≤ ms.length)
      (fields : PresentedBy (.obj ms) (.obj ((ms.map Prod.fst).zip ws))) :
      PresentedBy (.obj ms) (.arr ws)

variable {v w : Json} {ms ms' : List (String × Json)}

@[simp] theorem presentedBy_null_iff : PresentedBy .null w ↔ w = .null := by
  constructor
  · rintro ⟨⟩
    rfl
  · rintro rfl
    exact .null

@[simp] theorem presentedBy_bool_iff {b : Bool} : PresentedBy (.bool b) w ↔ w = .bool b := by
  constructor
  · rintro ⟨⟩
    rfl
  · rintro rfl
    exact .bool b

@[simp] theorem presentedBy_num_iff {n : Number} : PresentedBy (.num n) w ↔ w = .num n := by
  constructor
  · rintro ⟨⟩
    rfl
  · rintro rfl
    exact .num n

@[simp] theorem presentedBy_str_iff {s : String} : PresentedBy (.str s) w ↔ w = .str s := by
  constructor
  · rintro ⟨⟩
    rfl
  · rintro rfl
    exact .str s

theorem PresentedBy.eq_null (h : v.PresentedBy .null) : v = .null := by
  cases h
  rfl

theorem presentedBy_arr_iff {vs : List Json} :
    PresentedBy (.arr vs) w ↔ ∃ ws, List.Forall₂ PresentedBy vs ws ∧ w = .arr ws := by
  constructor
  · rintro (_ | _ | _ | _ | ⟨items⟩)
    exact ⟨_, items, rfl⟩
  · rintro ⟨ws, items, rfl⟩
    exact .arr items

theorem presentedBy_obj_iff : PresentedBy (.obj ms) (.obj ms') ↔
    ((ms'.map Prod.fst).filter fun name => name ∈ ms.map Prod.fst).Nodup ∧
      (∀ m ∈ ms, ∀ w, ms'.lookup m.1 = some w → PresentedBy m.2 w) ∧
      ∀ m ∈ ms, ms'.lookup m.1 = none → m ∈ omittable := by
  constructor
  · rintro (_ | _ | _ | _ | _ | ⟨once, named, omitted⟩)
    exact ⟨once, named, omitted⟩
  · rintro ⟨once, named, omitted⟩
    exact .obj once named omitted

theorem presentedBy_row_iff {ws : List Json} : PresentedBy (.obj ms) (.arr ws) ↔
    ws.length ≤ ms.length ∧ PresentedBy (.obj ms) (.obj ((ms.map Prod.fst).zip ws)) := by
  constructor
  · rintro (_ | _ | _ | _ | _ | _ | ⟨short, fields⟩)
    exact ⟨short, fields⟩
  · rintro ⟨short, fields⟩
    exact .row short fields

@[simp] theorem presentedBy_ofNat_iff {n : Nat} : (ofNat n).PresentedBy w ↔ w = ofNat n :=
  presentedBy_num_iff

@[simp] theorem presentedBy_ofTexts_iff {ss : List String} :
    (ofTexts ss).PresentedBy w ↔ w = ofTexts ss := by
  have hitems {ws : List Json} :
      List.Forall₂ PresentedBy (ss.map .str) ws ↔ ss.map .str = ws := by
    rw [← List.forall₂_eq_eq_eq, List.forall₂_map_left_iff, List.forall₂_map_left_iff]
    simp [eq_comm]
  rw [ofTexts, presentedBy_arr_iff]
  simp [hitems]

theorem presentedBy_ofOption {α : Type} {write : α → Json} {a : Option α}
    (h : ∀ x ∈ a, (write x).PresentedBy (write x)) :
    (ofOption write a).PresentedBy (ofOption write a) := by
  cases a with
  | none => exact .null
  | some x => exact h x rfl

/-! ## Which objects present another -/

/-- Fields may be left out, put in another order and mixed with other members. -/
theorem PresentedBy.of_edits (keep : String × Json → Bool) (value : String × Json → Json)
    (others : List (String × Json)) (hnodup : (ms.map Prod.fst).Nodup)
    (hleft : ∀ m ∈ ms, keep m = false → m ∈ omittable)
    (hvalue : ∀ m ∈ ms, m.2.PresentedBy (value m))
    (hothers : ∀ m ∈ others, m.1 ∉ ms.map Prod.fst)
    (horder : ms'.Perm ((ms.filter keep).map (fun m => (m.1, value m)) ++ others)) :
    PresentedBy (.obj ms) (.obj ms') := by
  have once : ((ms'.map Prod.fst).filter fun name => name ∈ ms.map Prod.fst).Nodup := by
    have hkept : (((ms.filter keep).map fun m => (m.1, value m)).map Prod.fst).Nodup := by
      rw [List.map_map]
      exact hnodup.sublist (List.filter_sublist.map _)
    have hnone : (others.map Prod.fst).filter (fun name => name ∈ ms.map Prod.fst) = [] := by
      simpa [List.filter_eq_nil_iff] using hothers
    rw [((horder.map Prod.fst).filter _).nodup_iff, List.map_append, List.filter_append, hnone,
      List.append_nil]
    exact hkept.filter _
  refine .obj once (fun m hm w hw => ?_) fun m hm hnone => ?_
  · rcases List.mem_append.mp (horder.mem_iff.mp (mem_of_lookup_eq_some hw)) with hin | hin
    · obtain ⟨k, hk, heq⟩ := List.mem_map.mp hin
      obtain ⟨hname, rfl⟩ := Prod.mk.inj heq
      obtain rfl : k = m :=
        List.inj_on_of_nodup_map hnodup (List.mem_of_mem_filter hk) hm hname
      exact hvalue k hm
    · exact absurd (List.mem_map_of_mem hm) (hothers (m.1, w) hin)
  · refine hleft m hm (Bool.eq_false_iff.mpr fun hkeep => ?_)
    have hin : (m.1, value m) ∈ ms' :=
      horder.mem_iff.mpr (List.mem_append_left _
        (List.mem_map_of_mem (f := fun m => (m.1, value m)) (List.mem_filter.mpr ⟨hm, hkeep⟩)))
    have hname : m.1 ∈ ms.map Prod.fst := List.mem_map_of_mem hm
    have hfound : ms'.lookup m.1 = some (value m) :=
      lookup_eq_some_of_mem once hin (decide_eq_true hname)
    rw [hnone] at hfound
    cases hfound

/-- A record presents itself if its values do. -/
theorem PresentedBy.self (hnodup : (ms.map Prod.fst).Nodup)
    (hvalues : ∀ m ∈ ms, m.2.PresentedBy m.2) : PresentedBy (.obj ms) (.obj ms) :=
  .of_edits (fun _ => true) Prod.snd [] hnodup (by simp) hvalues (List.forall_mem_nil _) (by simp)

/-- A member that is no field changes nothing. -/
theorem PresentedBy.of_other {m : String × Json}
    (h : PresentedBy (.obj ms) (.obj (m :: ms'))) (hm : m.1 ∉ ms.map Prod.fst) :
    PresentedBy (.obj ms) (.obj ms') := by
  obtain ⟨once, named, omitted⟩ := presentedBy_obj_iff.mp h
  have hlookup : ∀ k ∈ ms, (m :: ms').lookup k.1 = ms'.lookup k.1 := fun k hk => by
    have hne : (k.1 == m.1) = false :=
      beq_eq_false_iff_ne.mpr fun heq => hm (heq ▸ List.mem_map_of_mem hk)
    rw [List.lookup_cons, hne]
  refine .obj ?_ (fun k hk => hlookup k hk ▸ named k hk) fun k hk => hlookup k hk ▸ omitted k hk
  rwa [List.map_cons, List.filter_cons_of_neg (by simpa using hm)] at once

/-- What is left of a record without its first field is presented by the same object. -/
theorem PresentedBy.tail {m : String × Json} (h : PresentedBy (.obj (m :: ms)) (.obj ms')) :
    PresentedBy (.obj ms) (.obj ms') := by
  obtain ⟨once, named, omitted⟩ := presentedBy_obj_iff.mp h
  refine .obj (once.sublist ?_) (fun k hk => named k (List.mem_cons_of_mem _ hk))
    fun k hk => omitted k (List.mem_cons_of_mem _ hk)
  refine List.monotone_filter_right _ fun name hname => ?_
  simp only [decide_eq_true_eq, List.map_cons] at hname ⊢
  exact List.mem_cons_of_mem _ hname

/-- In an array the first field of a record stands first, unless it may be left out. -/
theorem PresentedBy.row_tail {m : String × Json} {ws : List Json}
    (h : PresentedBy (.obj (m :: ms)) (.arr ws)) (hfirst : m.1 ∉ ms.map Prod.fst)
    (hkept : m ∉ omittable) :
    ∃ w rest, ws = w :: rest ∧ m.2.PresentedBy w ∧ PresentedBy (.obj ms) (.arr rest) := by
  obtain ⟨short, fields⟩ := presentedBy_row_iff.mp h
  cases ws with
  | nil =>
    obtain ⟨-, -, omitted⟩ := presentedBy_obj_iff.mp fields
    exact absurd (omitted m List.mem_cons_self rfl) hkept
  | cons w rest =>
    have hw : m.2.PresentedBy w := by
      obtain ⟨-, named, -⟩ := presentedBy_obj_iff.mp fields
      exact named m List.mem_cons_self w List.lookup_cons_self
    exact ⟨w, rest, rfl, hw, .row (Nat.le_of_succ_le_succ short) (fields.tail.of_other hfirst)⟩

/-! ## What is found of a presentation -/

/-- What is found under the name of a written member presents its value, or nothing is
found and the member may be left out. -/
def Found (get : String → Option Json) (m : String × Json) : Prop :=
  (∃ w, get m.1 = some w ∧ m.2.PresentedBy w) ∨ get m.1 = none ∧ m ∈ omittable

theorem PresentedBy.found (h : PresentedBy (.obj ms) (.obj ms')) :
    ∀ m ∈ ms, Found (fun name => ms'.lookup name) m := by
  obtain ⟨-, named, omitted⟩ := presentedBy_obj_iff.mp h
  intro m hm
  cases hw : ms'.lookup m.1 with
  | none => exact .inr ⟨hw, omitted m hm hw⟩
  | some w => exact .inl ⟨w, hw, named m hm w hw⟩

/-- Every presentation of `v` is read as `a`. -/
def Recovers {α : Type} (read : Json → Decoded α) (v : Json) (a : α) : Prop :=
  ∀ w, v.PresentedBy w → read w = .ok a

/-! ## Values of a single field -/

theorem recovers_text (s : String) : Recovers readText (.str s) s := by
  rintro w hw
  rw [presentedBy_str_iff.mp hw, readText]

theorem recovers_bool (b : Bool) : Recovers readBool (.bool b) b := by
  rintro w hw
  rw [presentedBy_bool_iff.mp hw, readBool]

theorem recovers_nat {bits n : Nat} (h : n < Number.wordCount bits) :
    Recovers (readNat bits) (.ofNat n) n := by
  rintro w hw
  exact readNat_eq_ok_iff.mpr ⟨presentedBy_num_iff.mp hw, h⟩

theorem recovers_list {α : Type} {read : Json → Decoded α} {write : α → Json} {as : List α}
    (h : ∀ a ∈ as, Recovers read (write a) a) :
    Recovers (readList read) (.arr (as.map write)) as := by
  intro w hw
  obtain ⟨ws, hws, rfl⟩ := presentedBy_arr_iff.mp hw
  rw [List.forall₂_map_left_iff] at hws
  have hread : List.Forall₂ (fun a w => read w = .ok a) as ws :=
    ((List.forall₂_and_left _ _).mpr ⟨h, hws⟩).imp fun a w hw => hw.1 w hw.2
  rw [readList, mapM_eq_ok_iff]
  exact hread.flip

theorem recovers_texts (ss : List String) : Recovers (readList readText) (ofTexts ss) ss :=
  recovers_list fun s _ => recovers_text s

theorem recovers_option {α : Type} {read : Json → Decoded α} {write : α → Json} {a : Option α}
    (hnull : ∀ x, write x ≠ .null) (h : ∀ x ∈ a, Recovers read (write x) x) :
    Recovers (readOption read) (ofOption write a) a := by
  intro w hw
  cases a with
  | none =>
    rw [presentedBy_null_iff.mp hw]
    rfl
  | some x =>
    have hread : readOption read w = (read w).map some := by
      rw [readOption]
      rintro rfl
      exact hnull x hw.eq_null
    rw [hread, h x rfl w hw]
    rfl

end Json

@[simp] theorem Span.presentedBy_toJson_iff {s : Span} {w : Json} :
    s.toJson.PresentedBy w ↔ w = s.toJson := by
  simp [toJson, Json.presentedBy_arr_iff, List.forall₂_cons_left_iff]

theorem Span.recovers {s : Span} (h : s.Fits) : Json.Recovers ofJson s.toJson s := fun _ hw =>
  ofJson_eq_ok_iff.mpr ⟨presentedBy_toJson_iff.mp hw, h⟩

/-! ## Records -/

namespace Fields

open Json

variable {α : Type} {get : String → Option Json} {absent : String → DecodeError}

theorem reads_required_of_found {name : String} {v : Json} {read : Json → Decoded α} {a : α}
    (hread : Recovers read v a) (hname : name ∉ omittable.map Prod.fst)
    (h : Found get (name, v)) : (required name read).Reads get absent a := by
  rcases h with ⟨w, hw, hpresented⟩ | ⟨-, homit⟩
  · exact reads_required_iff.mpr ⟨w, hw, hread w hpresented⟩
  · exact absurd (List.mem_map_of_mem homit) hname

theorem reads_optional_of_found {name : String} {v : Json} {default : α}
    {read : Json → Decoded α} {a : α} (hread : Recovers read v a)
    (hdefault : (name, v) ∈ omittable → a = default) (h : Found get (name, v)) :
    (optional name default read).Reads get absent a := by
  rcases h with ⟨w, hw, hpresented⟩ | ⟨hnone, homit⟩
  · exact reads_optional_iff.mpr (.inr ⟨w, hw, hread w hpresented⟩)
  · exact reads_optional_iff.mpr (.inl ⟨hnone, hdefault homit⟩)

theorem reads_text_of_found {name s : String} (hname : name ∉ omittable.map Prod.fst)
    (h : Found get (name, .str s)) : (required name readText).Reads get absent s :=
  reads_required_of_found (recovers_text s) hname h

theorem reads_option_of_found {name : String} {read : Json → Decoded α} {write : α → Json}
    {a : Option α} (hname : ∀ v, (name, v) ∈ omittable → v = .null)
    (hnull : ∀ x, write x ≠ .null) (hread : ∀ x ∈ a, Recovers read (write x) x)
    (h : Found get (name, .ofOption write a)) :
    (optional name none (readOption read)).Reads get absent a := by
  refine reads_optional_of_found (recovers_option hnull hread) (fun homit => ?_) h
  cases a with
  | none => rfl
  | some x => exact absurd (hname _ homit) (hnull x)

/-- A record is recovered if its fields read whatever is found of its members. -/
theorem recovers {f : Fields Json α} (hnames : f.names.Nodup) {ms : List (String × Json)}
    (hms : ms.map Prod.fst = f.names) {a : α}
    (h : ∀ get absent, (∀ m ∈ ms, Found get m) → f.Reads get absent a) :
    Recovers f.read (.obj ms) a := by
  intro w hw
  cases w with
  | obj ms' =>
    obtain ⟨once, -, -⟩ := presentedBy_obj_iff.mp hw
    refine (readMembers_eq_ok_iff hnames).mpr ⟨once.sublist ?_, h _ _ hw.found⟩
    refine List.monotone_filter_right _ fun name hname => ?_
    rw [decide_eq_true_eq, hms]
    exact isSome_lookup_iff.mp hname
  | arr ws =>
    obtain ⟨short, fields⟩ := presentedBy_row_iff.mp hw
    rw [hms] at fields
    rw [← List.length_map Prod.fst, hms] at short
    exact (readItems_eq_ok_iff hnames).mpr ⟨short, h _ _ fields.found⟩
  | null | bool | num | str => cases hw

end Fields

end ShellGloss
