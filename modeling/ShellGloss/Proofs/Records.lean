import Mathlib.Data.List.Basic
import ShellGloss.Json.Fields
import ShellGloss.Proofs.Outcomes

/-!
# What a record is read from

`Fields.Reads` says when the values found under the names of the fields describe
a record. It has one equation for each way to describe fields, so that what a
description reads is found by rewriting. An object is read as a record exactly
when it names no field twice and its members describe that record
(`readMembers_eq_ok_iff`), an array exactly when it is not too long and its items,
named in the order of the fields, describe it (`readItems_eq_ok_iff`).
-/

namespace ShellGloss

namespace Fields

variable {μ ν α β : Type} {get : String → Option ν} {absent : String → DecodeError}

/-- The values that `get` finds describe the record: each passes the check of its
field, and the record is made of them. -/
structure Reads (f : Fields ν α) (get : String → Option ν) (absent : String → DecodeError)
    (a : α) : Prop where
  checks : ∀ c ∈ f.checks, ∀ v, get c.1 = some v → c.2 v = .ok ()
  build : f.build get absent = .ok a

/-! ## One equation for each way to describe fields -/

@[simp] theorem reads_pure_iff {a b : α} :
    (Fields.pure a : Fields ν α).Reads get absent b ↔ a = b := by
  constructor
  · intro h
    exact Except.ok.inj h.build
  · rintro rfl
    exact ⟨by simp [Fields.pure], rfl⟩

@[simp] theorem reads_seq_iff {f : Fields ν (α → β)} {x : Fields ν α} {b : β} :
    (f <*> x).Reads get absent b ↔
      ∃ g a, f.Reads get absent g ∧ x.Reads get absent a ∧ g a = b := by
  have hchecks : (f <*> x).checks = f.checks ++ x.checks := rfl
  have hbuild : (f <*> x).build get absent = .ok b ↔
      ∃ g, f.build get absent = .ok g ∧ ∃ a, x.build get absent = .ok a ∧ g a = b := by
    have hseq : (f <*> x).build get absent =
        (do let g ← f.build get absent; let a ← x.build get absent; return g a) := rfl
    simp only [hseq, bind_eq_ok_iff, pure, Except.pure, Except.ok.injEq]
  constructor
  · rintro ⟨hpass, hok⟩
    rw [hchecks, List.forall_mem_append] at hpass
    obtain ⟨g, hf, a, hx, hb⟩ := hbuild.mp hok
    exact ⟨g, a, ⟨hpass.1, hf⟩, ⟨hpass.2, hx⟩, hb⟩
  · rintro ⟨g, a, hf, hx, hb⟩
    refine ⟨?_, hbuild.mpr ⟨g, hf.build, a, hx.build, hb⟩⟩
    rw [hchecks, List.forall_mem_append]
    exact ⟨hf.checks, hx.checks⟩

@[simp] theorem reads_map_iff {g : α → β} {x : Fields ν α} {b : β} :
    (g <$> x).Reads get absent b ↔ ∃ a, x.Reads get absent a ∧ g a = b := by
  have hmap : g <$> x = (Fields.pure g : Fields ν (α → β)) <*> x := rfl
  simp [hmap]

@[simp] theorem reads_required_iff {name : String} {read : ν → Decoded α} {a : α} :
    (required name read).Reads get absent a ↔ ∃ v, get name = some v ∧ read v = .ok a := by
  constructor
  · rintro ⟨-, hbuild⟩
    cases hv : get name with
    | none => simp [required, hv] at hbuild
    | some v => exact ⟨v, rfl, by simpa [required, hv] using hbuild⟩
  · rintro ⟨v, hv, ha⟩
    exact ⟨by simp [required, hv, ha, Except.map], by simp [required, hv, ha]⟩

@[simp] theorem reads_optional_iff {name : String} {default a : α} {read : ν → Decoded α} :
    (optional name default read).Reads get absent a ↔
      (get name = none ∧ a = default) ∨ ∃ v, get name = some v ∧ read v = .ok a := by
  constructor
  · rintro ⟨-, hbuild⟩
    cases hv : get name with
    | none => exact .inl ⟨rfl, by simpa [optional, hv, eq_comm] using hbuild⟩
    | some v => exact .inr ⟨v, rfl, by simpa [optional, hv] using hbuild⟩
  · rintro (⟨hv, rfl⟩ | ⟨v, hv, ha⟩)
    · exact ⟨by simp [optional, hv], by simp [optional, hv]⟩
    · exact ⟨by simp [optional, hv, ha, Except.map], by simp [optional, hv, ha]⟩

@[simp] theorem reads_comap_iff {get : String → Option μ} {g : μ → ν} {f : Fields ν α} {a : α} :
    (f.comap g).Reads get absent a ↔ f.Reads (fun name => (get name).map g) absent a := by
  constructor
  · rintro ⟨hchecks, hbuild⟩
    refine ⟨fun c hc v hv => ?_, hbuild⟩
    obtain ⟨m, hm, rfl⟩ := Option.map_eq_some_iff.mp hv
    exact hchecks (c.1, c.2 ∘ g) (List.mem_map_of_mem hc) m hm
  · rintro ⟨hchecks, hbuild⟩
    refine ⟨fun c' hc' m hm => ?_, hbuild⟩
    obtain ⟨c, hc, rfl⟩ := List.mem_map.mp hc'
    exact hchecks c hc (g m) (by rw [hm, Option.map_some])

/-! ## Finding a member by its name -/

/-- A member is found by its name if no other of the names that count is the same. -/
theorem lookup_eq_some_of_mem {p : String → Bool} {ms : List (String × ν)}
    (hnodup : ((ms.map Prod.fst).filter p).Nodup) {m : String × ν} (hm : m ∈ ms)
    (hp : p m.1 = true) : ms.lookup m.1 = some m.2 := by
  induction ms with
  | nil => cases hm
  | cons first rest ih =>
    rw [List.map_cons] at hnodup
    rcases List.mem_cons.mp hm with rfl | hm
    · exact List.lookup_cons_self
    · have hname : m.1 ∈ (rest.map Prod.fst).filter p :=
        List.mem_filter.mpr ⟨List.mem_map_of_mem hm, hp⟩
      have hne : (m.1 == first.1) = false := by
        refine beq_eq_false_iff_ne.mpr fun h => ?_
        rw [List.filter_cons_of_pos (h ▸ hp), List.nodup_cons, ← h] at hnodup
        exact hnodup.1 hname
      rw [List.lookup_cons, hne]
      exact ih (hnodup.sublist ((List.sublist_cons_self _ _).filter p)) hm

theorem mem_of_lookup_eq_some {ms : List (String × ν)} {name : String} {v : ν}
    (h : ms.lookup name = some v) : (name, v) ∈ ms := by
  obtain ⟨before, after, rfl, -⟩ := List.lookup_eq_some_iff.mp h
  simp

theorem isSome_lookup_iff {ms : List (String × ν)} {name : String} :
    (ms.lookup name).isSome = true ↔ name ∈ ms.map Prod.fst := by
  constructor
  · intro h
    obtain ⟨v, hv⟩ := Option.isSome_iff_exists.mp h
    exact List.mem_map_of_mem (mem_of_lookup_eq_some hv)
  · intro h
    by_contra hnone
    obtain ⟨m, hm, rfl⟩ := List.mem_map.mp h
    have hne := List.lookup_eq_none_iff.mp (Option.not_isSome_iff_eq_none.mp hnone) m hm
    simp at hne

/-! ## Objects and arrays -/

/-- The names among those of the members that are names of fields, repeated ones included. -/
def namedFields (checks : List (String × (ν → Decoded Unit))) (ms : List (String × ν)) :
    List String :=
  (ms.map Prod.fst).filter fun name => (checks.lookup name).isSome

theorem mem_namedFields_iff {checks : List (String × (ν → Decoded Unit))}
    {ms : List (String × ν)} {name : String} :
    name ∈ namedFields checks ms ↔
      name ∈ ms.map Prod.fst ∧ (checks.lookup name).isSome = true :=
  List.mem_filter

/-- Members are judged good when each that names a field passes its check, and no
field is named twice or had been met before. -/
theorem checkMembers_eq_ok_iff {checks : List (String × (ν → Decoded Unit))}
    {seen : List String} {ms : List (String × ν)} :
    checkMembers checks seen ms = .ok () ↔
      (∀ m ∈ ms, ∀ check, checks.lookup m.1 = some check → check m.2 = .ok ()) ∧
        (namedFields checks ms).Nodup ∧ ∀ name ∈ namedFields checks ms, name ∉ seen := by
  induction ms generalizing seen with
  | nil => simp [checkMembers, namedFields]
  | cons m rest ih =>
    obtain ⟨name, v⟩ := m
    cases hcheck : checks.lookup name with
    | none =>
      have hnames : namedFields checks ((name, v) :: rest) = namedFields checks rest := by
        simp [namedFields, hcheck]
      simp [checkMembers, hcheck, hnames, ih]
    | some check =>
      have hnames : namedFields checks ((name, v) :: rest) = name :: namedFields checks rest := by
        simp [namedFields, hcheck]
      have hgood : (∀ m ∈ (name, v) :: rest, ∀ check', checks.lookup m.1 = some check' →
          check' m.2 = .ok ()) ↔ check v = .ok () ∧
            ∀ m ∈ rest, ∀ check', checks.lookup m.1 = some check' → check' m.2 = .ok () := by
        rw [List.forall_mem_cons]
        simp [hcheck]
      have hseen : (∀ n ∈ namedFields checks rest, n ∉ name :: seen) ↔
          name ∉ namedFields checks rest ∧ ∀ n ∈ namedFields checks rest, n ∉ seen := by
        grind
      rw [hgood, hnames, List.nodup_cons, List.forall_mem_cons]
      by_cases hmet : name ∈ seen
      · simp [checkMembers, hcheck, hmet]
      · cases hv : check v with
        | error e => simp [checkMembers, hcheck, hmet, hv]
        | ok u =>
          have hstep : checkMembers checks seen ((name, v) :: rest) =
              checkMembers checks (name :: seen) rest := by
            simp [checkMembers, hcheck, hmet, hv]
          rw [hstep, ih, hseen]
          tauto

/-- Where no field is named twice, judging the members is judging what is found under
the name of each field. -/
theorem forall_member_checks_iff {checks : List (String × (ν → Decoded Unit))}
    (hnames : (checks.map Prod.fst).Nodup) {ms : List (String × ν)}
    (honce : (namedFields checks ms).Nodup) :
    (∀ m ∈ ms, ∀ check, checks.lookup m.1 = some check → check m.2 = .ok ()) ↔
      ∀ c ∈ checks, ∀ v, ms.lookup c.1 = some v → c.2 v = .ok () := by
  constructor
  · intro h c hc v hv
    exact h (c.1, v) (mem_of_lookup_eq_some hv) c.2
      (lookup_eq_some_of_mem (hnames.filter fun _ => true) hc rfl)
  · intro h m hm check hcheck
    exact h (m.1, check) (mem_of_lookup_eq_some hcheck) m.2
      (lookup_eq_some_of_mem honce hm (by rw [hcheck, Option.isSome_some]))

/-- An object describes a record when it names no field twice and its members do. -/
theorem readMembers_eq_ok_iff {f : Fields ν α} (hnames : f.names.Nodup)
    {ms : List (String × ν)} {a : α} :
    f.readMembers ms = .ok a ↔
      (namedFields f.checks ms).Nodup ∧ f.Reads (fun name => ms.lookup name) .missingField a := by
  rw [readMembers, andThen_eq_ok_iff, checkMembers_eq_ok_iff]
  constructor
  · rintro ⟨⟨hgood, honce, -⟩, hbuild⟩
    exact ⟨honce, (forall_member_checks_iff hnames honce).mp hgood, hbuild⟩
  · rintro ⟨honce, hchecks, hbuild⟩
    exact ⟨⟨(forall_member_checks_iff hnames honce).mpr hchecks, honce, by simp⟩, hbuild⟩

/-- An array describes a record when it is no longer than there are fields and its
items, named in the order of the fields, do. -/
theorem readItems_eq_ok_iff {f : Fields ν α} (hnames : f.names.Nodup) {vs : List ν} {a : α} :
    f.readItems vs = .ok a ↔
      vs.length ≤ f.names.length ∧
        f.Reads (fun name => (f.names.zip vs).lookup name) (fun _ => .invalidLength) a := by
  have hread : f.readItems vs = .ok a ↔ checkMembers f.checks [] (f.names.zip vs) = .ok () ∧
      f.build (fun name => (f.names.zip vs).lookup name) (fun _ => .invalidLength) = .ok a ∧
        vs.length ≤ f.names.length := by
    simp only [readItems, andThen_eq_ok_iff]
    by_cases hlength : f.names.length < vs.length
    · simp [bind_eq_ok_iff, hlength]
    · simp [bind_eq_ok_iff, hlength, Nat.le_of_not_lt hlength]
  have honce : (namedFields f.checks (f.names.zip vs)).Nodup := by
    have hzip : (f.names.zip vs).map Prod.fst = f.names.take (min f.names.length vs.length) := by
      rw [List.zip_eq_zip_take_min, List.map_fst_zip]
      simp
    rw [namedFields, hzip]
    exact (hnames.sublist (List.take_sublist _ _)).filter _
  rw [hread, checkMembers_eq_ok_iff]
  constructor
  · rintro ⟨⟨hgood, -, -⟩, hbuild, hlength⟩
    exact ⟨hlength, (forall_member_checks_iff hnames honce).mp hgood, hbuild⟩
  · rintro ⟨hlength, hchecks, hbuild⟩
    exact ⟨⟨(forall_member_checks_iff hnames honce).mpr hchecks, honce, by simp⟩, hbuild, hlength⟩

/-- Behind a record that has been read stand values that describe it. -/
theorem exists_reads_of_read {f : Fields Json α} (hnames : f.names.Nodup) {v : Json} {a : α}
    (h : f.read v = .ok a) : ∃ get absent, f.Reads get absent a := by
  cases v with
  | obj ms => exact ⟨_, _, ((readMembers_eq_ok_iff hnames).mp h).2⟩
  | arr vs => exact ⟨_, _, ((readItems_eq_ok_iff hnames).mp h).2⟩
  | null => cases h
  | bool b => cases h
  | num n => cases h
  | str s => cases h

/-! ## Fields whose values stand in something that holds more -/

theorem lookup_map_value {g : μ → ν} {name : String} {ms : List (String × μ)} :
    (ms.map fun m => (m.1, g m.2)).lookup name = (ms.lookup name).map g := by
  induction ms with
  | nil => rfl
  | cons m rest ih =>
    rw [List.map_cons, List.lookup_cons, List.lookup_cons]
    split
    · rfl
    · exact ih

@[simp] theorem names_comap {g : μ → ν} {f : Fields ν α} : (f.comap g).names = f.names := by
  simp [names, comap]

theorem checkMembers_comap {g : μ → ν} {checks : List (String × (ν → Decoded Unit))}
    {seen : List String} {ms : List (String × μ)} :
    checkMembers (checks.map fun c => (c.1, c.2 ∘ g)) seen ms =
      checkMembers checks seen (ms.map fun m => (m.1, g m.2)) := by
  induction ms generalizing seen with
  | nil => rfl
  | cons m rest ih =>
    simp only [checkMembers, List.map_cons, lookup_map_value (g := (· ∘ g))]
    cases checks.lookup m.1 with
    | none => exact ih
    | some check => simp only [Option.map_some, Function.comp_apply, ih]

theorem readMembers_comap {g : μ → ν} {f : Fields ν α} {ms : List (String × μ)} :
    (f.comap g).readMembers ms = f.readMembers (ms.map fun m => (m.1, g m.2)) := by
  simp only [readMembers, lookup_map_value]
  rw [← checkMembers_comap]
  rfl

theorem readItems_comap {g : μ → ν} {f : Fields ν α} {vs : List μ} :
    (f.comap g).readItems vs = f.readItems (vs.map g) := by
  have hzip : f.names.zip (vs.map g) = (f.names.zip vs).map fun m => (m.1, g m.2) :=
    List.zip_map_right
  simp only [readItems, names_comap, List.length_map, hzip, lookup_map_value]
  rw [← checkMembers_comap]
  rfl

end Fields

end ShellGloss
