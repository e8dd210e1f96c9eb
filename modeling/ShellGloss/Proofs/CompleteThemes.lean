import ShellGloss.Config.Basic
import ShellGloss.Proofs.ByteOrder
import ShellGloss.Proofs.NeededRoles
import ShellGloss.Proofs.Outcomes

/-!
# Complete themes

A configuration with colors has a painter exactly when its stylesheet gives a style
that can be read to every role and to no other name. A painter that it has knows all
roles, and so explains any document whatever, checked or not.

Where there is no painter, the error is decided by the entries in the order of their
names, and only for want of a bad entry by the roles in their own order:
`Theme.addEntries_eq_error_iff` and `Theme.firstMissing?_eq_find?`.
-/

namespace ShellGloss

/-! ## Entries -/

theorem Role.ofName?_eq_some_iff {name : String} {r : Role} :
    ofName? name = some r ↔ r.name = name := by
  constructor
  · intro h
    simpa using List.find?_some h
  · rintro rfl
    exact ofName?_name r

/-- The entry gives a style to a role. -/
def IsUsable (e : String × String) : Prop :=
  (∃ r : Role, r.name = e.1) ∧ ∃ s, Style.read e.2 = .ok s

/-- What is wrong with an entry: its name is not that of a role, or else its text
describes no style. -/
inductive EntryFault.IsOf : EntryFault → String × String → Prop where
  | name {name text : String} (h : ∀ r : Role, r.name ≠ name) : (unknownRole name).IsOf (name, text)
  | style {name text : String} {r : Role} {e : UnknownColor} (hname : r.name = name)
      (htext : Style.read text = .error e) : (unknownColor e).IsOf (name, text)

theorem EntryFault.IsOf.not_isUsable {fault : EntryFault} {e : String × String}
    (h : fault.IsOf e) : ¬ IsUsable e := by
  rintro ⟨⟨r, hr⟩, s, hs⟩
  cases h with
  | name hname => exact hname r hr
  | style _ htext => simp [htext] at hs

namespace Theme

theorem readEntry_eq_ok_iff {e : String × String} {r : Role} {s : Style} :
    readEntry e = .ok (r, s) ↔ r.name = e.1 ∧ Style.read e.2 = .ok s := by
  rw [readEntry, Role.read, ← Role.ofName?_eq_some_iff]
  cases Role.ofName? e.1 with
  | none => simp [bind, Except.bind]
  | some role =>
    cases Style.read e.2 <;> simp [bind, Except.bind, Except.mapError, pure, Except.pure]

theorem readEntry_eq_error_iff {e : String × String} {fault : EntryFault} :
    readEntry e = .error fault ↔ fault.IsOf e := by
  obtain ⟨name, text⟩ := e
  rw [readEntry, Role.read]
  cases hname : Role.ofName? name with
  | none =>
    have hnone : ∀ r : Role, r.name ≠ name := by
      intro r hr
      rw [Role.ofName?_eq_some_iff.mpr hr] at hname
      cases hname
    simp only [bind, Except.bind, Except.error.injEq]
    constructor
    · rintro rfl
      exact .name hnone
    · intro h
      cases h with
      | name _ => rfl
      | style hr _ => exact absurd hr (hnone _)
  | some role =>
    have hrole := Role.ofName?_eq_some_iff.mp hname
    simp only [bind, Except.bind]
    cases htext : Style.read text with
    | error e =>
      simp only [Except.mapError, Except.error.injEq]
      constructor
      · rintro rfl
        exact .style hrole htext
      · intro h
        cases h with
        | name hnone => exact absurd hrole (hnone role)
        | style _ h => rw [htext] at h; exact congrArg _ (Except.error.inj h)
    | ok s =>
      simp only [Except.mapError, pure, Except.pure, reduceCtorEq, false_iff]
      exact fun h => h.not_isUsable ⟨⟨role, hrole⟩, s, htext⟩

theorem isUsable_iff_readEntry {e : String × String} :
    IsUsable e ↔ ∃ r s, readEntry e = .ok (r, s) := by
  simp only [readEntry_eq_ok_iff, exists_and_left, exists_and_right, IsUsable]

@[simp] theorem style?_set (t : Theme) (role : Role) (style : Style) (r : Role) :
    (t.set role style).style? r = if r = role then some style else t.style? r := rfl

/-! ## Adding entries -/

/-- Entries that make a theme are all usable. They add styles to the roles that they
name and to no others. -/
theorem addEntries_eq_ok {t t' : Theme} {es : List (String × String)}
    (h : t.addEntries es = .ok t') :
    (∀ e ∈ es, IsUsable e) ∧
      ∀ r, (t'.style? r).isSome = true ↔ (t.style? r).isSome = true ∨ r.name ∈ es.map Prod.fst := by
  induction es generalizing t with
  | nil =>
    obtain rfl : t = t' := Except.ok.inj h
    simp
  | cons e es ih =>
    cases hread : readEntry e with
    | error fault => simp [addEntries, hread] at h
    | ok p =>
      obtain ⟨role, style⟩ := p
      simp only [addEntries, hread] at h
      obtain ⟨hes, hstyles⟩ := ih h
      refine ⟨List.forall_mem_cons.mpr ⟨isUsable_iff_readEntry.mpr ⟨role, style, hread⟩, hes⟩,
        fun r => ?_⟩
      rw [hstyles, style?_set, List.map_cons, List.mem_cons, ← (readEntry_eq_ok_iff.mp hread).1]
      by_cases hr : r = role
      · simp [hr]
      · have hname : r.name ≠ role.name := fun h => hr (Role.name_injective h)
        simp [hr, hname]

/-- The first entry that cannot be used is reported. -/
theorem addEntries_eq_error_iff {t : Theme} {es : List (String × String)} {x : ThemeError} :
    t.addEntries es = .error x ↔
      ∃ before e after fault, es = before ++ e :: after ∧ (∀ b ∈ before, IsUsable b) ∧
        fault.IsOf e ∧ x = .badEntry e.1 fault := by
  induction es generalizing t with
  | nil => simp [addEntries]
  | cons e es ih =>
    cases hread : readEntry e with
    | error fault =>
      have hfault := readEntry_eq_error_iff.mp hread
      simp only [addEntries, hread, Except.error.injEq]
      constructor
      · rintro rfl
        exact ⟨[], e, es, fault, rfl, by simp, hfault, rfl⟩
      · rintro ⟨before, e', after, fault', hes, hbefore, hfault', rfl⟩
        -- nothing comes before the first entry, which is not usable
        cases before with
        | nil =>
          obtain ⟨rfl, -⟩ := List.cons.inj hes
          rw [readEntry_eq_error_iff.mpr hfault'] at hread
          rw [Except.error.inj hread]
        | cons b before =>
          obtain ⟨rfl, -⟩ := List.cons.inj hes
          exact absurd (hbefore e (by simp)) hfault.not_isUsable
    | ok p =>
      obtain ⟨role, style⟩ := p
      have husable : IsUsable e := isUsable_iff_readEntry.mpr ⟨role, style, hread⟩
      simp only [addEntries, hread, ih]
      constructor
      · rintro ⟨before, e', after, fault, rfl, hbefore, hfault, hx⟩
        exact ⟨e :: before, e', after, fault, rfl, List.forall_mem_cons.mpr ⟨husable, hbefore⟩,
          hfault, hx⟩
      · rintro ⟨before, e', after, fault, hes, hbefore, hfault, hx⟩
        cases before with
        | nil =>
          obtain ⟨rfl, -⟩ := List.cons.inj hes
          exact absurd husable hfault.not_isUsable
        | cons b before =>
          obtain ⟨rfl, rfl⟩ := List.cons.inj hes
          exact ⟨before, e', after, fault, rfl, (List.forall_mem_cons.mp hbefore).2, hfault, hx⟩

end Theme

/-! ## Stylesheets -/

/-- The names that have an entry, in ascending order. -/
def Stylesheet.names (s : Stylesheet) : List String :=
  s.entries.map Prod.fst

/-- In a stylesheet, what stands before an entry are the entries of smaller names. -/
theorem Stylesheet.forall_before_iff {s : Stylesheet} {before after : List (String × String)}
    {e : String × String} (h : s.entries = before ++ e :: after) {P : String × String → Prop} :
    (∀ b ∈ before, P b) ↔ ∀ b ∈ s.entries, b.1 < e.1 → P b := by
  have hordered := s.ascending
  rw [h, List.pairwise_append, List.pairwise_cons] at hordered
  obtain ⟨-, ⟨hafter, -⟩, hbefore⟩ := hordered
  rw [h]
  constructor
  · intro hP b hb hlt
    rcases List.mem_append.mp hb with hb | hb
    · exact hP b hb
    · rcases List.mem_cons.mp hb with rfl | hb
      · exact absurd hlt (String.lt_irrefl _)
      · exact absurd (String.lt_trans hlt (hafter b hb)) (String.lt_irrefl _)
  · intro hP b hb
    exact hP b (List.mem_append_left _ hb) (hbefore b hb e (by simp))

namespace Theme

variable {s : Stylesheet}

/-- The error of a stylesheet is that of its bad entry of the smallest name. -/
theorem ofStylesheet_eq_error_iff {x : ThemeError} :
    ofStylesheet s = .error x ↔ ∃ e ∈ s.entries, ∃ fault : EntryFault, fault.IsOf e ∧
      (∀ b ∈ s.entries, b.1 < e.1 → IsUsable b) ∧ x = .badEntry e.1 fault := by
  rw [ofStylesheet, addEntries_eq_error_iff]
  constructor
  · rintro ⟨before, e, after, fault, hes, hbefore, hfault, rfl⟩
    exact ⟨e, by simp [hes], fault, hfault, (Stylesheet.forall_before_iff hes).mp hbefore, rfl⟩
  · rintro ⟨e, he, fault, hfault, hsmaller, rfl⟩
    obtain ⟨before, after, hes⟩ := List.append_of_mem he
    exact ⟨before, e, after, fault, hes, (Stylesheet.forall_before_iff hes).mpr hsmaller, hfault,
      rfl⟩

/-- A stylesheet makes a theme exactly when it has no bad entry. -/
theorem exists_ofStylesheet_iff :
    (∃ t, ofStylesheet s = .ok t) ↔ ∀ e ∈ s.entries, IsUsable e := by
  constructor
  · rintro ⟨t, ht⟩
    exact (addEntries_eq_ok ht).1
  · intro h
    cases ht : ofStylesheet s with
    | ok t => exact ⟨t, rfl⟩
    | error x =>
      obtain ⟨e, he, fault, hfault, -, -⟩ := ofStylesheet_eq_error_iff.mp ht
      exact absurd (h e he) hfault.not_isUsable

/-- The theme of a stylesheet has styles for the roles that the stylesheet names. -/
theorem style?_isSome_iff {t : Theme} (h : ofStylesheet s = .ok t) (r : Role) :
    (t.style? r).isSome = true ↔ r.name ∈ s.names := by
  rw [(addEntries_eq_ok h).2 r]
  simp [empty, Stylesheet.names]

/-- The first role without a style is the first that the stylesheet does not name. -/
theorem firstMissing?_eq_find? {t : Theme} (h : ofStylesheet s = .ok t) :
    t.firstMissing? = Role.all.find? fun r => r.name ∉ s.names := by
  have hmissing : (fun r => (t.style? r).isNone) = fun r => decide (r.name ∉ s.names) := by
    funext r
    rw [Bool.eq_iff_iff, decide_eq_true_eq, ← style?_isSome_iff h r]
    simp
  rw [firstMissing?, hmissing]

end Theme

/-! ## Configurations -/

namespace Config

variable {c : Config}

theorem completeTheme_of_ok {t : Theme} (h : Theme.ofStylesheet c.theme = .ok t) :
    c.completeTheme =
      match Role.all.find? fun r => r.name ∉ c.theme.names with
      | some r => .error (.missing ⟨r⟩)
      | none => .ok t := by
  rw [completeTheme, h, ← Theme.firstMissing?_eq_find? h]
  simp only [bind, Except.bind, Theme.requireComplete]
  cases t.firstMissing? <;> rfl

theorem completeTheme_of_error {x : ThemeError} (h : Theme.ofStylesheet c.theme = .error x) :
    c.completeTheme = .error x := by
  rw [completeTheme, h]
  rfl

theorem exists_completeTheme_iff :
    (∃ t, c.completeTheme = .ok t) ↔
      (∀ e ∈ c.theme.entries, IsUsable e) ∧ ∀ r : Role, r.name ∈ c.theme.names := by
  rw [← Theme.exists_ofStylesheet_iff]
  cases h : Theme.ofStylesheet c.theme with
  | error x => simp [completeTheme_of_error h]
  | ok t =>
    have hall : (∀ r : Role, r.name ∈ c.theme.names) ↔
        (Role.all.find? fun r => r.name ∉ c.theme.names) = none := by
      simp [Role.mem_all]
    rw [completeTheme_of_ok h, hall]
    cases Role.all.find? fun r => r.name ∉ c.theme.names <;> simp

/-- A bad entry is reported, the one of the smallest name. -/
theorem completeTheme_eq_badEntry_iff {name : String} {fault : EntryFault} :
    c.completeTheme = .error (.badEntry name fault) ↔
      ∃ text, (name, text) ∈ c.theme.entries ∧ fault.IsOf (name, text) ∧
        ∀ e ∈ c.theme.entries, e.1 < name → IsUsable e := by
  have hiff : c.completeTheme = .error (.badEntry name fault) ↔
      Theme.ofStylesheet c.theme = .error (.badEntry name fault) := by
    cases h : Theme.ofStylesheet c.theme with
    | error x => rw [completeTheme_of_error h]
    | ok t =>
      rw [completeTheme_of_ok h]
      cases Role.all.find? fun r => r.name ∉ c.theme.names <;> simp
  rw [hiff, Theme.ofStylesheet_eq_error_iff]
  constructor
  · rintro ⟨⟨name, text⟩, he, fault, hfault, hsmaller, hx⟩
    obtain ⟨rfl, rfl⟩ := ThemeError.badEntry.inj hx
    exact ⟨text, he, hfault, hsmaller⟩
  · rintro ⟨text, he, hfault, hsmaller⟩
    exact ⟨(name, text), he, fault, hfault, hsmaller, rfl⟩

/-- A role without an entry is reported if there is no bad entry, the first in order. -/
theorem completeTheme_eq_missing_iff {m : MissingStyle} :
    c.completeTheme = .error (.missing m) ↔
      (∀ e ∈ c.theme.entries, IsUsable e) ∧
        Role.all.find? (fun r => r.name ∉ c.theme.names) = some m.role := by
  obtain ⟨role⟩ := m
  rw [← Theme.exists_ofStylesheet_iff]
  cases h : Theme.ofStylesheet c.theme with
  | error x =>
    obtain ⟨e, -, fault, -, -, rfl⟩ := Theme.ofStylesheet_eq_error_iff.mp h
    simp [completeTheme_of_error h]
  | ok t =>
    rw [completeTheme_of_ok h]
    cases Role.all.find? fun r => r.name ∉ c.theme.names <;> simp

/-- A complete theme has a style for every role. -/
theorem exists_style_of_completeTheme {t : Theme} (h : c.completeTheme = .ok t) (r : Role) :
    ∃ s, t.style? r = some s := by
  have hnamed := (exists_completeTheme_iff.mp ⟨t, h⟩).2 r
  cases ht : Theme.ofStylesheet c.theme with
  | error x => simp [completeTheme_of_error ht] at h
  | ok t' =>
    rw [completeTheme_of_ok ht] at h
    split at h
    · cases h
    · obtain rfl : t' = t := Except.ok.inj h
      exact Option.isSome_iff_exists.mp ((Theme.style?_isSome_iff ht r).mpr hnamed)

end Config

/-- The names of a stylesheet are those of the roles and all its texts can be read
exactly when its entries are all usable and every role has one. -/
theorem Stylesheet.names_eq_roles_iff {s : Stylesheet} :
    ((∀ name, name ∈ s.names ↔ name ∈ Role.all.map Role.name) ∧
        ∀ e ∈ s.entries, ∃ style, Style.read e.2 = .ok style) ↔
      (∀ e ∈ s.entries, IsUsable e) ∧ ∀ r : Role, r.name ∈ s.names := by
  constructor
  · rintro ⟨hnames, htexts⟩
    refine ⟨fun e he => ⟨?_, htexts e he⟩, fun r => ?_⟩
    · obtain ⟨r, -, hr⟩ := List.mem_map.mp ((hnames e.1).mp (List.mem_map_of_mem he))
      exact ⟨r, hr⟩
    · exact (hnames r.name).mpr (List.mem_map_of_mem (Role.mem_all r))
  · rintro ⟨husable, hroles⟩
    refine ⟨fun name => ⟨fun h => ?_, fun h => ?_⟩, fun e he => (husable e he).2⟩
    · obtain ⟨e, he, rfl⟩ := List.mem_map.mp h
      obtain ⟨r, hr⟩ := (husable e he).1
      exact hr ▸ List.mem_map_of_mem (Role.mem_all r)
    · obtain ⟨r, -, rfl⟩ := List.mem_map.mp h
      exact hroles r

/-! ## Explaining with a painter that knows all roles -/

/-- A painter that knows every role explains any document, checked or not. -/
theorem Document.exists_explain {p : Painter} (hp : p.Knows fun _ => true) (d : Document) :
    ∃ e, d.explain p = .ok e := by
  have hleaf (leaf : Node) (text : String) : ∃ shown, leaf.paint p text = .ok shown := by
    rw [← outcome_eq_ok_iff, leaf.outcome_paint hp, requireKnown_eq_ok_iff]
    exact fun _ _ => rfl
  have hpieces : ∀ piece ∈ pieces d.source d.tree.leaves, ∃ shown, piece.paint p = .ok shown := by
    intro piece _
    cases piece with
    | gap c => exact ⟨_, rfl⟩
    | covered leaf text => exact hleaf leaf text
    | stale leaf offset => exact ⟨_, rfl⟩
  obtain ⟨shown, hshown⟩ := exists_mapM hpieces
  obtain ⟨gs, hgs⟩ : ∃ gs, glosses p d.source d.tree.leaves = .ok gs := by
    rw [← outcome_eq_ok_iff, outcome_glosses hp, requireKnown_eq_ok_iff]
    exact fun _ _ => rfl
  refine ⟨⟨String.join shown, gs⟩, ?_⟩
  rw [explain, markup, hshown, hgs]
  rfl

theorem Painter.knows_plain : Painter.plain.Knows fun _ => true where
  shows := fun _ text _ => ⟨text, rfl⟩
  misses := by simp

theorem Theme.knows_painter {t : Theme} (h : ∀ r, ∃ s, t.style? r = some s) (mode : ColorMode) :
    (t.painter mode).Knows fun _ => true where
  shows := by
    intro r text _
    obtain ⟨s, hs⟩ := h r
    exact ⟨s.paint mode text, by simp [painter, hs]⟩
  misses := by simp

/-- A configuration has a painter exactly when it shows no colors or else its
stylesheet has the names of the roles and no others, each with a text that describes
a style. Otherwise the error is that of the bad entry whose name is the smallest, in
the order of bytes: there is no role of that name, or else its text describes no
style. If no entry is bad, it is the first role without an entry. A painter of a
configuration explains any document whatever, checked or not. -/
theorem painter_iff_complete (mode : ColorMode) (c : Config) :
    ((∃ p, c.painter mode = .ok p) ↔
      c.settings.color = false ∨
        (∀ name, name ∈ c.theme.names ↔ name ∈ Role.all.map Role.name) ∧
          ∀ e ∈ c.theme.entries, ∃ s, Style.read e.2 = .ok s) ∧
    (∀ name fault, c.painter mode = .error (.badEntry name fault) ↔
      c.settings.color = true ∧
        ∃ text, (name, text) ∈ c.theme.entries ∧ fault.IsOf (name, text) ∧
          ∀ e ∈ c.theme.entries, Text.bytes e.1 < Text.bytes name → IsUsable e) ∧
    (∀ m, c.painter mode = .error (.missing m) ↔
      c.settings.color = true ∧ (∀ e ∈ c.theme.entries, IsUsable e) ∧
        Role.all.find? (fun r => r.name ∉ c.theme.names) = some m.role) ∧
    ∀ p, c.painter mode = .ok p → ∀ d : Document, ∃ e, d.explain p = .ok e := by
  simp only [Stylesheet.names_eq_roles_iff, Text.bytes_lt_bytes_iff,
    ← Config.exists_completeTheme_iff, ← Config.completeTheme_eq_badEntry_iff,
    ← Config.completeTheme_eq_missing_iff, Config.painter]
  cases hcolor : c.settings.color with
  | false =>
    refine ⟨by simp, by simp, by simp, ?_⟩
    rintro p hp d
    obtain rfl : Painter.plain = p := Except.ok.inj hp
    exact d.exists_explain Painter.knows_plain
  | true =>
    cases htheme : c.completeTheme with
    | error x => simp [Except.map]
    | ok t =>
      refine ⟨by simp [Except.map], by simp [Except.map], by simp [Except.map], ?_⟩
      rintro p hp d
      obtain rfl : t.painter mode = p := Except.ok.inj hp
      have hstyles := Config.exists_style_of_completeTheme htheme
      exact d.exists_explain (Theme.knows_painter hstyles mode)

/-- A document that is refused: its spans overlap, run backwards and end outside the source. -/
def disorderedDocument : Document :=
  ⟨"ls -l", .group .command ⟨0, 9⟩
    [.program ⟨⟨0, 4⟩, "ls", "ls", none⟩, .option ⟨⟨3, 2⟩, "-l", "-l", none⟩]⟩

/-- The standard configuration has a painter, which explains even a document that is refused. -/
theorem painter_iff_complete_standard :
    ∃ p e, Config.standard.painter .shown = .ok p ∧ disorderedDocument.check.isOk = false ∧
      disorderedDocument.explain p = .ok e := by
  have hpainter : (Config.standard.painter .shown).toOption.isSome = true := by decide +kernel
  obtain ⟨p, hp⟩ := Option.isSome_iff_exists.mp hpainter
  have hp := eq_ok_of_toOption hp
  obtain ⟨e, he⟩ := (painter_iff_complete .shown Config.standard).2.2.2 p hp disorderedDocument
  exact ⟨p, e, hp, by decide +kernel, he⟩

end ShellGloss
