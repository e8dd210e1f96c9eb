import Mathlib.Data.List.Nodup
import ShellGloss.Config.Read
import ShellGloss.Proofs.Records

/-!
# Overlays in turn

Overlays are applied one after the other, and a text that describes none is passed
over. What the configuration says in the end is what the last overlay says that says
anything about it: for the settings one by one, and for the theme name by name.

All of this is one fact about folds, `view_foldl`, told of three views of a
configuration. For the theme the view is what is found under a name, and
`Overlay.write?` is what an overlay puts there.
-/

namespace ShellGloss

/-- If each step either writes what is viewed or leaves it alone, the last to write
decides. -/
theorem view_foldl {σ ω β : Type} {step : σ → ω → σ} (view : σ → β) {write? : ω → Option β}
    (hstep : ∀ s o, view (step s o) = (write? o).getD (view s)) (s : σ) (os : List ω) :
    view (os.foldl step s) = (os.filterMap write?).getLast?.getD (view s) := by
  induction os generalizing s with
  | nil => rfl
  | cons o os ih =>
    rw [List.foldl_cons, ih, hstep]
    cases ho : write? o with
    | none => rw [List.filterMap_cons_none ho, Option.getD_none]
    | some b =>
      rw [List.filterMap_cons_some ho, List.getLast?_cons, Option.getD_some, Option.getD_some]

namespace Stylesheet

/-- No name has two entries. -/
theorem nodup_map_fst (s : Stylesheet) : (s.entries.map Prod.fst).Nodup := by
  rw [List.Nodup, List.pairwise_map]
  refine s.ascending.imp fun {a b} hab heq => ?_
  rw [heq] at hab
  exact String.lt_irrefl _ hab

theorem mem_entries_iff {s : Stylesheet} {e : String × String} :
    e ∈ s.entries ↔ s.get? e.1 = some e.2 := by
  constructor
  · intro he
    exact Fields.lookup_eq_some_of_mem (s.nodup_map_fst.filter fun _ => true) he rfl
  · intro he
    exact Fields.mem_of_lookup_eq_some he

/-- Stylesheets in which the same is found are the same. -/
theorem eq_of_get? {s t : Stylesheet} (h : ∀ name, s.get? name = t.get? name) : s = t := by
  have hmem (e : String × String) : e ∈ s.entries ↔ e ∈ t.entries := by
    rw [mem_entries_iff, mem_entries_iff, h]
  have hnodup (u : Stylesheet) : u.entries.Nodup := List.Nodup.of_map Prod.fst u.nodup_map_fst
  have hperm : s.entries.Perm t.entries :=
    (List.perm_ext_iff_of_nodup (hnodup s) (hnodup t)).mpr hmem
  have hentries : s.entries = t.entries :=
    hperm.eq_of_pairwise
      (fun a b _ _ hab hba => absurd (String.lt_trans hab hba) (String.lt_irrefl _))
      s.ascending t.ascending
  obtain ⟨es, hes⟩ := s
  obtain ⟨es', hes'⟩ := t
  obtain rfl : es = es' := hentries
  rfl

end Stylesheet

/-! ## One overlay -/

namespace Overlay

/-- The overlay says what becomes of a name: it replaces all entries, or removes the
name, or has an entry for it. -/
def decides (o : Overlay) (name : String) : Bool :=
  o.replace || o.remove.contains name || (o.entries.get? name).isSome

/-- What the overlay puts under a name that it decides: its entry, if it has one. -/
def write? (name : String) (o : Overlay) : Option (Option String) :=
  if o.decides name then some (o.entries.get? name) else none

end Overlay

namespace Config

variable {c : Config} {o : Overlay}

theorem get?_mergeTheme (theme : Stylesheet) (o : Overlay) (name : String) :
    (mergeTheme theme o).get? name = (o.write? name).getD (theme.get? name) := by
  rw [mergeTheme, Overlay.write?, Overlay.decides]
  cases hreplace : o.replace with
  | true => simp
  | false =>
    rw [if_neg Bool.false_ne_true, Stylesheet.get?_insertAll _ o.entries.ascending,
      Stylesheet.get?_eraseAll, ← Stylesheet.get?]
    cases o.entries.get? name with
    | some text => simp
    | none => by_cases hremove : name ∈ o.remove <;> simp [hremove]

/-- A second time an overlay changes nothing. -/
theorem apply_apply (c : Config) (o : Overlay) : (c.apply o).apply o = c.apply o := by
  have htheme : (c.apply o |>.apply o).theme = (c.apply o).theme := by
    apply Stylesheet.eq_of_get?
    intro name
    simp only [apply, get?_mergeTheme]
    cases o.write? name <;> rfl
  have hsettings : (c.apply o |>.apply o).settings = (c.apply o).settings := by
    simp only [apply]
    cases o.color <;> cases o.logLevel <;> rfl
  calc (c.apply o).apply o
      = ⟨(c.apply o |>.apply o).settings, (c.apply o |>.apply o).theme⟩ := rfl
    _ = c.apply o := by rw [htheme, hsettings]

/-! ## Overlays in turn -/

section

variable (read? : String → Option Overlay)

/-- The configuration after the overlays that are read from several texts, one after the
other. Where none is read from a text, the configuration stays as it is. -/
def overlayAll (c : Config) (texts : List String) : Config :=
  texts.foldl (fun c text => (c.overlayBy? read? text).getD c) c

theorem overlayAll_cons (c : Config) (text : String) (texts : List String) :
    c.overlayAll read? (text :: texts) =
      ((c.overlayBy? read? text).getD c).overlayAll read? texts := rfl

/-- The texts that no overlay is read from do not count. -/
theorem overlayAll_eq_foldl (c : Config) (texts : List String) :
    c.overlayAll read? texts = (texts.filterMap read?).foldl apply c := by
  induction texts generalizing c with
  | nil => rfl
  | cons text texts ih =>
    rw [overlayAll_cons, ih, overlayBy?]
    cases h : read? text with
    | none => rw [List.filterMap_cons_none h]; rfl
    | some o => rw [List.filterMap_cons_some h]; rfl

end

end Config

/-- Let overlays be applied in turn, however they are read from texts. Each setting is in
the end as the last overlay has it that sets it, and each name is as in the last overlay
that decides it: it has the entry of that overlay, or none if that overlay has none. What
no overlay says anything about is as it was. A text that no overlay is read from is refused
and changes nothing at all, and an overlay that is given twice in a row counts once. The
overlays of a run are those that are written in TOML. -/
theorem last_overlay_decides (read? : String → Option Overlay) (c : Config)
    (texts : List String) :
    (c.overlayAll read? texts).settings.color =
      ((texts.filterMap read?).filterMap Overlay.color).getLast?.getD c.settings.color ∧
    (c.overlayAll read? texts).settings.logLevel =
      ((texts.filterMap read?).filterMap Overlay.logLevel).getLast?.getD c.settings.logLevel ∧
    (∀ name, (c.overlayAll read? texts).theme.get? name =
      match ((texts.filterMap read?).filter fun o => o.decides name).getLast? with
      | some o => o.entries.get? name
      | none => c.theme.get? name) ∧
    (∀ text, (c.overlayBy? read? text = none ↔ read? text = none) ∧
      (read? text = none → c.overlayAll read? (text :: texts) = c.overlayAll read? texts)) ∧
    (∀ text, c.overlayAll read? (text :: text :: texts) = c.overlayAll read? (text :: texts)) ∧
    ∀ text, c.overlay? text = c.overlayBy? Overlay.read? text := by
  rw [Config.overlayAll_eq_foldl]
  refine ⟨view_foldl (fun c : Config => c.settings.color) (fun _ _ => rfl) c _,
    view_foldl (fun c : Config => c.settings.logLevel) (fun _ _ => rfl) c _,
    fun name => ?_, fun text => ⟨Option.map_eq_none_iff, fun h => ?_⟩, fun text => ?_,
    fun _ => rfl⟩
  · have hstep (c : Config) (o : Overlay) :
        (c.apply o).theme.get? name = (o.write? name).getD (c.theme.get? name) :=
      Config.get?_mergeTheme c.theme o name
    rw [view_foldl (fun c : Config => c.theme.get? name) hstep]
    generalize texts.filterMap read? = os
    have hwrite : os.filterMap (Overlay.write? name) =
        (os.filter fun o => o.decides name).map fun o => o.entries.get? name := by
      rw [← List.filterMap_eq_map, List.filterMap_filter]
      rfl
    rw [hwrite, List.getLast?_map]
    cases (os.filter fun o => o.decides name).getLast? <;> rfl
  · rw [Config.overlayAll_cons, Config.overlayBy?, h, Option.map_none, Option.getD_none,
      Config.overlayAll_eq_foldl]
  · rw [Config.overlayAll_cons, Config.overlayAll_cons, Config.overlayAll_cons]
    congr 1
    rw [Config.overlayBy?, Config.overlayBy?]
    cases read? text with
    | none => rfl
    | some o => exact Config.apply_apply c o

/-- A text that describes no overlay. -/
def brokenOverlay : String :=
  "settings.color = 1"

/-- Three overlays and a text that is none. The first removes a name that it has an
entry for. -/
def overlaysInTurn : List String :=
  ["settings.color = false\n[theme]\nword = 'dim'\npipe = 'red'\nremove = ['word']", brokenOverlay,
    "theme.remove = ['pipe']", "settings.log_level = 'off'"]

theorem last_overlay_decides_inTurn :
    (Config.standard.overlayAll Overlay.read? overlaysInTurn).settings.color = false ∧
      (Config.standard.overlayAll Overlay.read? overlaysInTurn).settings.logLevel = "off" ∧
      ["word", "pipe", "option"].map
          (Config.standard.overlayAll Overlay.read? overlaysInTurn).theme.get? =
        [some "dim", none, some "yellow"] ∧
      Overlay.read? brokenOverlay = none ∧
      Config.standard.overlayAll Overlay.read? (brokenOverlay :: overlaysInTurn) =
        Config.standard.overlayAll Overlay.read? overlaysInTurn := by
  have hbroken : Overlay.read? brokenOverlay = none := by
    rw [← Option.isNone_iff_eq_none]
    decide +kernel
  obtain ⟨hcolor, hlogLevel, htheme, hrefused, -, -⟩ :=
    last_overlay_decides Overlay.read? Config.standard overlaysInTurn
  refine ⟨?_, ?_, ?_, hbroken, (hrefused brokenOverlay).2 hbroken⟩
  · rw [hcolor]
    decide +kernel
  · rw [hlogLevel]
    decide +kernel
  · simp only [List.map_cons, List.map_nil, htheme]
    decide +kernel

end ShellGloss
