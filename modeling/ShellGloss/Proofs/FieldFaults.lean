import Mathlib.Data.List.Perm.Subperm
import ShellGloss.Proofs.Presentation

/-!
# Faults in the fields of a record

An object inside a written value, at any depth, is told by a value with a hole
(`Json.Context`). There are two ways in which the members of that object can go wrong by
one of them (`Json.Fault`): a field that must be there is missing, or a field is there
twice. A reader refuses a written value if it reports every such fault, in whatever object
it is (`Json.Refuses`).

Refusal is handed up from the values of a record to the record. Before a faulty value the
members are as they were, so that nothing else is reported first; and a missing field is
reported because the record lacks nothing else (`Fields.Strict`).
-/

namespace ShellGloss

namespace Json

/-! ## Places in a value -/

/-- A value with a hole. -/
inductive Context where
  | hole
  | item (before : List Json) (inner : Context) (after : List Json)
  | member (before : List (String × Json)) (name : String) (inner : Context)
      (after : List (String × Json))

/-- The value that has `v` in the hole. -/
def Context.plug : Context → Json → Json
  | hole, v => v
  | item before inner after, v => .arr (before ++ inner.plug v :: after)
  | member before name inner after, v => .obj (before ++ (name, inner.plug v) :: after)

/-- No object stands in the value. -/
def Plain (v : Json) : Prop :=
  ∀ (C : Context) ms, v ≠ C.plug (.obj ms)

theorem plain_null : Plain .null := by
  intro C ms h
  cases C <;> cases h

theorem plain_bool (b : Bool) : Plain (.bool b) := by
  intro C ms h
  cases C <;> cases h

theorem plain_num (n : Number) : Plain (.num n) := by
  intro C ms h
  cases C <;> cases h

theorem plain_str (s : String) : Plain (.str s) := by
  intro C ms h
  cases C <;> cases h

theorem plain_arr {vs : List Json} (h : ∀ v ∈ vs, Plain v) : Plain (.arr vs) := by
  intro C ms hplug
  cases C with
  | hole => cases hplug
  | item before inner after =>
    obtain rfl := Json.arr.inj hplug
    exact h _ (by simp) inner ms rfl
  | member before name inner after => cases hplug

theorem plain_ofTexts (ss : List String) : Plain (ofTexts ss) :=
  plain_arr (List.forall_mem_map.mpr fun s _ => plain_str s)

theorem plain_ofOption {α : Type} {write : α → Json} (h : ∀ x, Plain (write x))
    (a : Option α) : Plain (ofOption write a) := by
  cases a with
  | none => exact plain_null
  | some x => exact h x

/-! ## Faults -/

/-- A field of that name must be there. -/
def isNeeded (name : String) : Bool :=
  name ∉ omittable.map Prod.fst

/-- A fault in the members of an object, and the error that reports it: a field that must
be there is missing, or a member is there twice. -/
inductive Fault : List (String × Json) → List (String × Json) → DecodeError → Prop where
  | missing {before after : List (String × Json)} {m : String × Json}
      (needed : isNeeded m.1 = true) :
    Fault (before ++ m :: after) (before ++ after) (.missingField m.1)
  | repeated {before after : List (String × Json)} {m : String × Json}
      (mem : m ∈ before ++ after) :
    Fault (before ++ after) (before ++ m :: after) (.duplicateField m.1)

/-- A fault in any object of `v` is reported. -/
def Refuses {α : Type} (read : Json → Decoded α) (v : Json) : Prop :=
  ∀ (C : Context) (ms ms' : List (String × Json)) (e : DecodeError),
    v = C.plug (.obj ms) → Fault ms ms' e → read (C.plug (.obj ms')) = .error e

section Refuses

variable {α β : Type} {read : Json → Decoded α} {v : Json}

theorem Refuses.of_plain (h : Plain v) : Refuses read v :=
  fun C ms _ _ hv => absurd hv (h C ms)

theorem Refuses.map (h : Refuses read v) (f : α → β) : Refuses (fun v => (read v).map f) v := by
  intro C ms ms' e hv hfault
  simp only [h C ms ms' e hv hfault]
  rfl

theorem Refuses.option {write : α → Json} {a : Option α} (h : ∀ x ∈ a, Refuses read (write x)) :
    Refuses (readOption read) (ofOption write a) := by
  cases a with
  | none => exact .of_plain plain_null
  | some x =>
    intro C ms ms' e hv hfault
    have hread : readOption read (C.plug (.obj ms')) = (read (C.plug (.obj ms'))).map some := by
      rw [readOption]
      exact (plain_null C ms' ·.symm)
    rw [hread, h x rfl C ms ms' e hv hfault]
    rfl

theorem Refuses.list {write : α → Json} {as : List α} (hread : ∀ a ∈ as, read (write a) = .ok a)
    (h : ∀ a ∈ as, Refuses read (write a)) : Refuses (readList read) (.arr (as.map write)) := by
  intro C ms ms' e hv hfault
  cases C with
  | hole => cases hv
  | item before inner after =>
    have hitems := Json.arr.inj hv
    have hbefore : ∀ v ∈ before, ∃ a, read v = .ok a := by
      intro v hin
      have hmem : v ∈ as.map write := hitems ▸ List.mem_append_left _ hin
      obtain ⟨a, ha, rfl⟩ := List.mem_map.mp hmem
      exact ⟨a, hread a ha⟩
    have hinner : inner.plug (.obj ms) ∈ as.map write := by
      rw [hitems]
      exact List.mem_append_right _ List.mem_cons_self
    obtain ⟨a, ha, hplug⟩ := List.mem_map.mp hinner
    exact mapM_eq_error_of_item hbefore (h a ha inner ms ms' e hplug hfault)
  | member before name inner after => cases hv

end Refuses

end Json

theorem Span.plain_toJson (s : Span) : s.toJson.Plain :=
  Json.plain_arr (by simp [Json.ofNat, Json.plain_num])

namespace Fields

open Json (isNeeded Fault Refuses Plain Context)

variable {μ ν α β : Type}

/-! ## Records that need their fields -/

/-- Nothing is found of a field that must be there. -/
def isMissing (get : String → Option ν) (name : String) : Bool :=
  isNeeded name && (get name).isNone

/-- If what is found passes its checks, the record is made as soon as no field is missing
that must be there, and else the first that is missing is reported. -/
def Strict (f : Fields ν α) : Prop :=
  ∀ get absent, (∀ c ∈ f.checks, ∀ v, get c.1 = some v → c.2 v = .ok ()) →
    match f.names.find? (isMissing get) with
    | some name => f.build get absent = .error (absent name)
    | none => ∃ a, f.build get absent = .ok a

theorem strict_pure (a : α) : (Fields.pure a : Fields ν α).Strict :=
  fun _ _ _ => ⟨a, rfl⟩

theorem Strict.seq {f : Fields ν (α → β)} {x : Fields ν α} (hf : f.Strict) (hx : x.Strict) :
    (f <*> x).Strict := by
  intro get absent hpass
  have hchecks : (f <*> x).checks = f.checks ++ x.checks := rfl
  have hnames : (f <*> x).names = f.names ++ x.names := by simp [names, hchecks]
  have hbuild : (f <*> x).build get absent =
      (do let g ← f.build get absent; let a ← x.build get absent; return g a) := rfl
  rw [hchecks, List.forall_mem_append] at hpass
  have hf' := hf get absent hpass.1
  have hx' := hx get absent hpass.2
  rw [hnames, List.find?_append, hbuild]
  -- what the function lacks is missed before anything that its argument lacks
  cases hfirst : f.names.find? (isMissing get) with
  | some name =>
    rw [hfirst] at hf'
    simp only [Option.some_or, hf']
    rfl
  | none =>
    rw [hfirst] at hf'
    obtain ⟨g, hg⟩ := hf'
    rw [Option.none_or, hg]
    cases hsecond : x.names.find? (isMissing get) with
    | some name =>
      rw [hsecond] at hx'
      simp only [hx']
      rfl
    | none =>
      rw [hsecond] at hx'
      obtain ⟨a, ha⟩ := hx'
      rw [ha]
      exact ⟨g a, rfl⟩

theorem Strict.map {x : Fields ν α} (hx : x.Strict) (g : α → β) : (g <$> x).Strict :=
  (strict_pure g).seq hx

theorem strict_required {name : String} {read : ν → Decoded α} (h : isNeeded name = true) :
    (required name read).Strict := by
  intro get absent hpass
  cases hv : get name with
  | none => simp [names, required, isMissing, hv, h]
  | some v =>
    have hread := hpass _ List.mem_cons_self v hv
    obtain ⟨a, ha, -⟩ := map_eq_ok_iff.mp hread
    simp [names, required, isMissing, hv, ha]

theorem strict_optional {name : String} {default : α} {read : ν → Decoded α}
    (h : isNeeded name = false) : (optional name default read).Strict := by
  intro get absent hpass
  cases hv : get name with
  | none => simp [names, optional, isMissing, hv, h]
  | some v =>
    have hread := hpass _ List.mem_cons_self v hv
    obtain ⟨a, ha, -⟩ := map_eq_ok_iff.mp hread
    simp [names, optional, isMissing, hv, ha]

theorem Strict.comap {f : Fields ν α} (hf : f.Strict) (g : μ → ν) : (f.comap g).Strict := by
  intro get absent hpass
  have hpass' : ∀ c ∈ f.checks, ∀ v, (get c.1).map g = some v → c.2 v = .ok () := by
    intro c hc v hv
    obtain ⟨w, hw, rfl⟩ := Option.map_eq_some_iff.mp hv
    exact hpass (c.1, c.2 ∘ g) (List.mem_map_of_mem hc) w hw
  have hmissing : isMissing (fun name => (get name).map g) = isMissing get := by
    funext name
    simp [isMissing]
  have hf' := hf (fun name => (get name).map g) absent hpass'
  rw [hmissing] at hf'
  rw [names_comap]
  exact hf'

/-! ## Members that go wrong -/

variable {checks : List (String × (ν → Decoded Unit))}

theorem checkMembers_append {seen : List String} {ms ms' : List (String × ν)} :
    checkMembers checks seen (ms ++ ms') = (do
      checkMembers checks seen ms
      checkMembers checks ((namedFields checks ms).reverse ++ seen) ms') := by
  induction ms generalizing seen with
  | nil => rfl
  | cons m rest ih =>
    obtain ⟨name, v⟩ := m
    rw [List.cons_append, checkMembers, checkMembers]
    cases hcheck : checks.lookup name with
    | none => simp [namedFields, hcheck, ih]
    | some check =>
      by_cases hmet : seen.contains name = true
      · simp only [hmet, if_true]
        rfl
      · simp only [hmet]
        cases check v with
        | error e => rfl
        | ok u => simp [namedFields, hcheck, ih]

/-- Some of the members that pass pass, in whatever order. -/
theorem checkMembers_of_subperm {ms ms' : List (String × ν)} (h : ms'.Subperm ms)
    (hms : checkMembers checks [] ms = .ok ()) : checkMembers checks [] ms' = .ok () := by
  obtain ⟨hgood, honce, -⟩ := checkMembers_eq_ok_iff.mp hms
  obtain ⟨l, hperm, hsub⟩ := h
  have honce' : (namedFields checks ms').Nodup := by
    have hl : (namedFields checks l).Nodup := honce.sublist ((hsub.map Prod.fst).filter _)
    exact ((hperm.map Prod.fst).filter _).nodup_iff.mp hl
  have hgood' : ∀ m ∈ ms', ∀ check, checks.lookup m.1 = some check → check m.2 = .ok () :=
    fun m hm => hgood m (hsub.subset (hperm.mem_iff.mpr hm))
  exact checkMembers_eq_ok_iff.mpr ⟨hgood', honce', by simp⟩

/-- A field that has been met is reported where it is met again. -/
theorem checkMembers_of_met {before after : List (String × ν)} {m : String × ν}
    (hbefore : checkMembers checks [] before = .ok ()) (hm : m ∈ before)
    (hfield : m.1 ∈ checks.map Prod.fst) :
    checkMembers checks [] (before ++ m :: after) = .error (.duplicateField m.1) := by
  rw [← isSome_lookup_iff] at hfield
  have hmet : m.1 ∈ (namedFields checks before).reverse ++ [] := by
    rw [List.append_nil, List.mem_reverse, mem_namedFields_iff]
    exact ⟨List.mem_map_of_mem hm, hfield⟩
  obtain ⟨check, hcheck⟩ := Option.isSome_iff_exists.mp hfield
  rw [checkMembers_append, hbefore]
  show checkMembers checks _ (m :: after) = _
  simp only [checkMembers, hcheck, List.contains_iff_mem.mpr hmet, if_true]

/-- A value that does not pass is reported if what stands before it passes. -/
theorem checkMembers_of_value {before after : List (String × ν)} {name : String} {v : ν}
    {check : ν → Decoded Unit} {e : DecodeError}
    (hbefore : checkMembers checks [] before = .ok ()) (hnew : name ∉ before.map Prod.fst)
    (hcheck : checks.lookup name = some check) (hv : check v = .error e) :
    checkMembers checks [] (before ++ (name, v) :: after) = .error e := by
  have hunmet : name ∉ (namedFields checks before).reverse ++ [] := by
    rw [List.append_nil, List.mem_reverse, mem_namedFields_iff]
    exact fun h => hnew h.1
  rw [checkMembers_append, hbefore]
  show checkMembers checks _ ((name, v) :: after) = _
  simp only [checkMembers, hcheck, hv, if_neg (mt List.contains_iff_mem.mp hunmet)]

/-- Of members that pass, no other is called as a field among them. -/
theorem not_mem_map_fst_of_checkMembers {before after : List (String × ν)} {m : String × ν}
    (h : checkMembers checks [] (before ++ m :: after) = .ok ())
    (hfield : m.1 ∈ checks.map Prod.fst) : m.1 ∉ (before ++ after).map Prod.fst := by
  rw [← isSome_lookup_iff] at hfield
  have hmoved : (m :: (before ++ after)).Subperm (before ++ m :: after) :=
    List.perm_middle.symm.subperm
  have honce := (checkMembers_eq_ok_iff.mp (checkMembers_of_subperm hmoved h)).2.1
  simp only [namedFields, List.map_cons, List.filter_cons, hfield, if_true,
    List.nodup_cons] at honce
  exact fun hin => honce.1 (List.mem_filter.mpr ⟨hin, hfield⟩)

/-! ## Records that go wrong -/

/-- Every field of the record is among the members, and they pass. -/
structure Filled (f : Fields ν α) (ms : List (String × ν)) : Prop where
  passes : checkMembers f.checks [] ms = .ok ()
  names : ∀ name ∈ f.names, name ∈ ms.map Prod.fst

section Filled

variable {f : Fields ν α} {before after : List (String × ν)}

/-- Without one member, nothing is missing but the field of its name. -/
theorem Filled.eq_of_isMissing {m : String × ν} (h : f.Filled (before ++ m :: after))
    {name : String} (hfield : name ∈ f.names)
    (hmissing : isMissing (fun name => (before ++ after).lookup name) name = true) :
    name = m.1 := by
  by_contra hne
  have hin : name ∈ (before ++ after).map Prod.fst := by
    have := h.names name hfield
    simp only [List.map_append, List.map_cons, List.mem_append, List.mem_cons] at this ⊢
    tauto
  obtain ⟨v, hv⟩ := Option.isSome_iff_exists.mp (isSome_lookup_iff.mpr hin)
  simp [isMissing, hv] at hmissing

theorem Filled.readMembers_of_missing {m : String × ν} (h : f.Filled (before ++ m :: after))
    (hstrict : f.Strict) (hnames : f.names.Nodup) (hfield : m.1 ∈ f.names)
    (hneeded : isNeeded m.1 = true) :
    f.readMembers (before ++ after) = .error (.missingField m.1) := by
  have hpasses : checkMembers f.checks [] (before ++ after) = .ok () :=
    checkMembers_of_subperm ((List.sublist_cons_self m after).append_left before).subperm h.passes
  have hnone : isMissing (fun name => (before ++ after).lookup name) m.1 = true := by
    have hnot := not_mem_map_fst_of_checkMembers h.passes hfield
    rw [← isSome_lookup_iff, Option.not_isSome_iff_eq_none] at hnot
    simp [isMissing, hneeded, hnot]
  have hfirst : f.names.find? (isMissing fun name => (before ++ after).lookup name) =
      some m.1 := by
    cases hfind : f.names.find? (isMissing fun name => (before ++ after).lookup name) with
    | none => exact absurd hnone (List.find?_eq_none.mp hfind m.1 hfield)
    | some name =>
      exact congrArg some
        (h.eq_of_isMissing (List.mem_of_find?_eq_some hfind) (List.find?_some hfind))
  obtain ⟨hgood, honce, -⟩ := checkMembers_eq_ok_iff.mp hpasses
  have hbuild := hstrict (fun name => (before ++ after).lookup name) .missingField
    ((forall_member_checks_iff hnames honce).mp hgood)
  rw [hfirst] at hbuild
  rw [readMembers, hpasses]
  exact hbuild

theorem Filled.readMembers_of_repeated {m : String × ν} (h : f.Filled (before ++ after))
    (hm : m ∈ before ++ after) (hfield : m.1 ∈ f.names) :
    f.readMembers (before ++ m :: after) = .error (.duplicateField m.1) := by
  have hcheck : checkMembers f.checks [] (before ++ m :: after) = .error (.duplicateField m.1) := by
    rcases List.mem_append.mp hm with hbefore | hafter
    · have hpasses :=
        checkMembers_of_subperm (List.sublist_append_left before after).subperm h.passes
      exact checkMembers_of_met hpasses hbefore hfield
    · -- the member that is met first is the one that has been added
      obtain ⟨first, last, rfl⟩ := List.append_of_mem hafter
      have hmoved : (before ++ m :: first).Subperm (before ++ (first ++ m :: last)) := by
        rw [List.subperm_append_left]
        exact ((List.sublist_append_left first last).cons_cons m).subperm.trans
          List.perm_middle.symm.subperm
      have hpasses := checkMembers_of_subperm hmoved h.passes
      have hmem : m ∈ before ++ m :: first := by simp
      rw [← List.cons_append, ← List.append_assoc]
      exact checkMembers_of_met hpasses hmem hfield
  rw [readMembers, hcheck]
  rfl

theorem Filled.readMembers_of_value {name : String} {v w : ν} {check : ν → Decoded Unit}
    {e : DecodeError} (h : f.Filled (before ++ (name, v) :: after))
    (hcheck : f.checks.lookup name = some check) (hw : check w = .error e) :
    f.readMembers (before ++ (name, w) :: after) = .error e := by
  have hpasses := checkMembers_of_subperm
    (List.sublist_append_left before ((name, v) :: after)).subperm h.passes
  have hfield : name ∈ f.names := List.mem_map_of_mem (mem_of_lookup_eq_some hcheck)
  have hnew : name ∉ before.map Prod.fst := by
    have hnot := not_mem_map_fst_of_checkMembers h.passes hfield
    rw [List.map_append, List.mem_append, not_or] at hnot
    exact hnot.1
  rw [readMembers, checkMembers_of_value hpasses hnew hcheck hw]
  rfl

end Filled

/-- A fault in the value of a member is reported, because there is none or because the
check of the field reports it. -/
def Guards (f : Fields Json α) (m : String × Json) : Prop :=
  Plain m.2 ∨ ∃ check, f.checks.lookup m.1 = some check ∧ Refuses check m.2

/-- A fault below the members of an object is reported by whoever reads them. -/
theorem readMembers_of_guards {f : Fields Json α} {before after : List (String × Json)}
    {name : String} {C : Context} {ms ms' : List (String × Json)} {e : DecodeError}
    (h : f.Filled (before ++ (name, C.plug (.obj ms)) :: after))
    (hguards : f.Guards (name, C.plug (.obj ms))) (hfault : Fault ms ms' e) :
    f.readMembers (before ++ (name, C.plug (.obj ms')) :: after) = .error e := by
  rcases hguards with hplain | ⟨check, hcheck, hrefuses⟩
  · exact absurd rfl (hplain C ms)
  · exact h.readMembers_of_value hcheck (hrefuses C ms ms' e rfl hfault)

/-- A record refuses what is written of it, if its values are refused. -/
theorem refuses {f : Fields Json α} (hstrict : f.Strict) (hnames : f.names.Nodup)
    {ms : List (String × Json)} (hms : ms.map Prod.fst = f.names) {a : α}
    (hread : f.read (.obj ms) = .ok a) (hguards : ∀ m ∈ ms, f.Guards m) :
    Refuses f.read (.obj ms) := by
  have hfilled : f.Filled ms := by
    obtain ⟨hpasses, -⟩ := andThen_eq_ok_iff.mp hread
    exact ⟨hpasses, fun name hname => hms ▸ hname⟩
  have hfield : ∀ m ∈ ms, m.1 ∈ f.names := fun m hm => hms ▸ List.mem_map_of_mem hm
  intro C inner inner' e hv hfault
  cases C with
  | hole =>
    obtain rfl := Json.obj.inj hv
    cases hfault with
    | missing hneeded =>
      exact hfilled.readMembers_of_missing hstrict hnames (hfield _ (by simp)) hneeded
    | repeated hm => exact hfilled.readMembers_of_repeated hm (hfield _ hm)
  | item before C after => cases hv
  | member before name C after =>
    obtain rfl := Json.obj.inj hv
    exact readMembers_of_guards hfilled (hguards _ (by simp)) hfault

end Fields

end ShellGloss
