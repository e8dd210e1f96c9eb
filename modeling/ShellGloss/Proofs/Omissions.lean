import ShellGloss.Proofs.Decoding
import ShellGloss.Proofs.NodeFaults
import ShellGloss.Proofs.Wording

/-!
# Fields left out

A field that may be left out has a value without it. If a written node is changed to have
that value for the field of one object in it, at any depth, the result is again a written
node (`Node.exists_of_reset`): for every record and every such field there is a record
that differs in that field only. The object without the field presents the same node, and
so it is decoded to it.

Together with the faults of a written node this says what becomes of it when a single
member of a single object is left out or repeated (`decoding_fails_fast`), down to the
message.
-/

namespace ShellGloss

namespace Json

/-! ## Leaving out a member -/

/-- The object has the value for a member that the member has without being there. -/
def Reset (v u : Json) : Prop :=
  ∃ (C : Context) (before : List (String × Json)) (name : String) (value default : Json)
    (after : List (String × Json)), (name, default) ∈ omittable ∧
      v = C.plug (.obj (before ++ (name, value) :: after)) ∧
      u = C.plug (.obj (before ++ (name, default) :: after))

variable {v u : Json} {ms : List (String × Json)}

theorem Plain.not_reset (h : Plain v) : ¬ Reset v u := by
  rintro ⟨C, before, name, value, default, after, -, hv, -⟩
  exact h C _ hv

@[simp] theorem not_reset_str {s : String} : ¬ Reset (.str s) u :=
  (plain_str s).not_reset

@[simp] theorem not_reset_bool {b : Bool} : ¬ Reset (.bool b) u :=
  (plain_bool b).not_reset

@[simp] theorem not_reset_ofTexts {ss : List String} : ¬ Reset (ofTexts ss) u :=
  (plain_ofTexts ss).not_reset

@[simp] theorem not_reset_ofNat {n : Nat} : ¬ Reset (ofNat n) u :=
  (plain_num _).not_reset

@[simp] theorem not_reset_span {s : Span} : ¬ Reset s.toJson u :=
  s.plain_toJson.not_reset

theorem Reset.ofOption {α : Type} {write : α → Json} {a : Option α}
    (h : Reset (ofOption write a) u) : ∃ x ∈ a, Reset (write x) u := by
  cases a with
  | none => exact absurd h plain_null.not_reset
  | some x => exact ⟨x, rfl, h⟩

/-- In an array one of the items is changed. -/
theorem Reset.arr {vs : List Json} (h : Reset (.arr vs) u) :
    ∃ before v v' after, vs = before ++ v :: after ∧ Reset v v' ∧
      u = .arr (before ++ v' :: after) := by
  obtain ⟨C, before, name, value, default, after, homit, hv, rfl⟩ := h
  cases C with
  | hole => cases hv
  | item first inner last =>
    exact ⟨first, _, _, last, Json.arr.inj hv,
      ⟨inner, before, name, value, default, after, homit, rfl, rfl⟩, rfl⟩
  | member first name inner last => cases hv

@[simp] theorem not_reset_nil : ¬ Reset (.obj []) u := by
  rintro ⟨C, before, name, value, default, after, -, hv, -⟩
  cases C with
  | hole => simp [Context.plug] at hv
  | item first inner last => cases hv
  | member first name inner last => simp [Context.plug] at hv

theorem Reset.cons {m : String × Json} (h : Reset (.obj (m :: ms)) u) :
    (∃ default, (m.1, default) ∈ omittable ∧ u = .obj ((m.1, default) :: ms)) ∨
      (∃ value, Reset m.2 value ∧ u = .obj ((m.1, value) :: ms)) ∨
      ∃ us, Reset (.obj ms) (.obj us) ∧ u = .obj (m :: us) := by
  obtain ⟨C, before, name, value, default, after, homit, hv, rfl⟩ := h
  cases C with
  | hole =>
    cases before with
    | nil =>
      obtain ⟨rfl, rfl⟩ := List.cons.inj (Json.obj.inj hv)
      exact .inl ⟨default, homit, rfl⟩
    | cons m' before =>
      obtain ⟨rfl, rfl⟩ := List.cons.inj (Json.obj.inj hv)
      exact .inr (.inr ⟨_, ⟨.hole, before, name, value, default, after, homit, rfl, rfl⟩, rfl⟩)
  | item first inner last => cases hv
  | member first name' inner last =>
    cases first with
    | nil =>
      obtain ⟨rfl, rfl⟩ := List.cons.inj (Json.obj.inj hv)
      exact .inr (.inl ⟨_, ⟨inner, before, name, value, default, after, homit, rfl, rfl⟩, rfl⟩)
    | cons m' first =>
      obtain ⟨rfl, rfl⟩ := List.cons.inj (Json.obj.inj hv)
      exact .inr (.inr ⟨_, ⟨.member first name' inner last, before, name, value, default, after,
        homit, rfl, rfl⟩, rfl⟩)

theorem Reset.behind (m : String × Json) {us : List (String × Json)}
    (h : Reset (.obj ms) (.obj us)) : Reset (.obj (m :: ms)) (.obj (m :: us)) := by
  obtain ⟨C, before, name, value, default, after, homit, hv, hu⟩ := h
  cases C with
  | hole =>
    obtain rfl := Json.obj.inj hv
    obtain rfl := Json.obj.inj hu
    exact ⟨.hole, m :: before, name, value, default, after, homit, rfl, rfl⟩
  | item first inner last => cases hv
  | member first name' inner last =>
    obtain rfl := Json.obj.inj hv
    obtain rfl := Json.obj.inj hu
    exact ⟨.member (m :: first) name' inner last, before, name, value, default, after, homit,
      rfl, rfl⟩

/-- In an object one of the members is changed: it is as it is without being there, or its
value is changed. -/
theorem reset_cons_iff {m : String × Json} : Reset (.obj (m :: ms)) u ↔
    (∃ default, (m.1, default) ∈ omittable ∧ u = .obj ((m.1, default) :: ms)) ∨
      (∃ value, Reset m.2 value ∧ u = .obj ((m.1, value) :: ms)) ∨
      ∃ us, Reset (.obj ms) (.obj us) ∧ u = .obj (m :: us) := by
  constructor
  · exact Reset.cons
  · rintro (⟨default, homit, rfl⟩ | ⟨value, hvalue, rfl⟩ | ⟨us, h, rfl⟩)
    · exact ⟨.hole, [], m.1, m.2, default, ms, homit, rfl, rfl⟩
    · obtain ⟨C, before, name, x, default, after, homit, hv, rfl⟩ := hvalue
      exact ⟨.member [] m.1 C ms, before, name, x, default, after, homit,
        by rw [Context.plug, ← hv]; rfl, rfl⟩
    · exact h.behind m

/-- A record presents itself only if its values do. -/
theorem PresentedBy.nodup_and_values (h : PresentedBy (.obj ms) (.obj ms)) :
    (ms.map Prod.fst).Nodup ∧ ∀ m ∈ ms, m.2.PresentedBy m.2 := by
  obtain ⟨once, named, -⟩ := presentedBy_obj_iff.mp h
  refine ⟨?_, fun m hm => ?_⟩
  · rwa [List.filter_eq_self.mpr fun name hname => decide_eq_true hname] at once
  · have hfound : ms.lookup m.1 = some m.2 :=
      Fields.lookup_eq_some_of_mem once hm (decide_eq_true (List.mem_map_of_mem hm))
    exact named m hm m.2 hfound

theorem not_mem_names_of_nodup {before after : List (String × Json)} {m : String × Json}
    (h : ((before ++ m :: after).map Prod.fst).Nodup) :
    ∀ k ∈ before ++ after, k.1 ≠ m.1 := by
  rw [List.map_append, List.map_cons, List.nodup_middle, ← List.map_append,
    List.nodup_cons] at h
  exact fun k hk hname => h.1 (hname ▸ List.mem_map_of_mem hk)

/-- A record that presents itself is presented without a member that may be left out. -/
theorem PresentedBy.omit {before after : List (String × Json)} {m : String × Json}
    (h : PresentedBy (.obj (before ++ m :: after)) (.obj (before ++ m :: after)))
    (homit : m ∈ omittable) :
    PresentedBy (.obj (before ++ m :: after)) (.obj (before ++ after)) := by
  obtain ⟨hnodup, hvalues⟩ := h.nodup_and_values
  have hothers := not_mem_names_of_nodup hnodup
  refine .of_edits (fun k => k.1 ≠ m.1) Prod.snd [] hnodup (fun k hk hname => ?_) hvalues
    (List.forall_mem_nil _) ?_
  · have hm : m ∈ before ++ m :: after := by simp
    have hsame : k.1 = m.1 := by simpa using hname
    rw [List.inj_on_of_nodup_map hnodup hk hm hsame]
    exact homit
  · have hkept : (before ++ m :: after).filter (fun k => k.1 ≠ m.1) = before ++ after := by
      rw [List.filter_append, List.filter_cons_of_neg (by simp), ← List.filter_append,
        List.filter_eq_self]
      exact fun k hk => decide_eq_true (hothers k hk)
    rw [hkept, List.append_nil]
    exact .of_eq (List.map_id _).symm

/-- A record that presents itself is presented with a value in another presentation. -/
theorem PresentedBy.replace {before after : List (String × Json)} {name : String} {x y : Json}
    (h : PresentedBy (.obj (before ++ (name, x) :: after)) (.obj (before ++ (name, x) :: after)))
    (hxy : x.PresentedBy y) :
    PresentedBy (.obj (before ++ (name, x) :: after)) (.obj (before ++ (name, y) :: after)) := by
  obtain ⟨hnodup, hvalues⟩ := h.nodup_and_values
  have hothers := not_mem_names_of_nodup hnodup
  refine .of_edits (fun _ => true) (fun k => if k.1 = name then y else k.2) [] hnodup (by simp)
    (fun k hk => ?_) (List.forall_mem_nil _) ?_
  · by_cases hname : k.1 = name
    · have hm : (name, x) ∈ before ++ (name, x) :: after := by simp
      rw [List.inj_on_of_nodup_map hnodup hk hm hname]
      simpa using hxy
    · simpa [hname] using hvalues k hk
  · have hsame (ks : List (String × Json)) (hks : ks ⊆ before ++ after) :
        ks.map (fun k => (k.1, if k.1 = name then y else k.2)) = ks := by
      refine (List.map_congr_left fun k hk => ?_).trans (List.map_id ks)
      rw [if_neg (hothers k (hks hk))]
      rfl
    have hmap : (before ++ (name, x) :: after).map
        (fun k => (k.1, if k.1 = name then y else k.2)) = before ++ (name, y) :: after := by
      rw [List.map_append, List.map_cons, if_pos rfl, hsame before (List.subset_append_left _ _),
        hsame after (List.subset_append_right _ _)]
    rw [List.filter_true, hmap, List.append_nil]

theorem presentedBy_arr_self_iff {vs : List Json} :
    PresentedBy (.arr vs) (.arr vs) ↔ ∀ v ∈ vs, v.PresentedBy v := by
  simp [presentedBy_arr_iff, List.forall₂_same]

/-- A member that is as it is without being there may be left out of any object. -/
theorem presentedBy_of_omitted {C : Context} {before after : List (String × Json)}
    {name : String} {default : Json} (homit : (name, default) ∈ omittable)
    (hself : (C.plug (.obj (before ++ (name, default) :: after))).PresentedBy
      (C.plug (.obj (before ++ (name, default) :: after)))) :
    (C.plug (.obj (before ++ (name, default) :: after))).PresentedBy
      (C.plug (.obj (before ++ after))) := by
  induction C with
  | hole => exact hself.omit homit
  | item first inner last ih =>
    have hitems := presentedBy_arr_self_iff.mp hself
    simp only [List.forall_mem_append, List.forall_mem_cons] at hitems
    obtain ⟨hfirst, hinner, hlast⟩ := hitems
    exact .arr (List.rel_append (List.forall₂_same.mpr hfirst)
      (.cons (ih hinner) (List.forall₂_same.mpr hlast)))
  | member first name' inner last ih =>
    obtain ⟨-, hvalues⟩ := hself.nodup_and_values
    exact hself.replace (ih (hvalues (name', _) (by simp)))

end Json

/-! ## Records -/

section Records

open Json

variable {u : Json}

theorem CommandSchema.exists_of_reset {s : CommandSchema} (h : Reset s.toJson u) :
    ∃ s' : CommandSchema, s'.toJson = u := by
  have hu : u = toJson { s with summary := "" } := by
    simpa [toJson, reset_cons_iff, omittable] using h
  exact ⟨_, hu.symm⟩

theorem OptionSchema.exists_of_reset {s : OptionSchema} (h : Reset s.toJson u) :
    ∃ s' : OptionSchema, s'.toJson = u := by
  have hu : u = toJson { s with long := [] } ∨ u = toJson { s with short := [] } ∨
      u = toJson { s with summary := "" } ∨ u = toJson { s with expectsArg := false } ∨
      u = toJson { s with argInNextToken := false } := by
    simpa [toJson, reset_cons_iff, omittable] using h
  rcases hu with hu | hu | hu | hu | hu <;> exact ⟨_, hu.symm⟩

theorem CommandSchema.exists_option_of_reset {s : Option CommandSchema}
    (h : Reset (ofOption toJson s) u) : ∃ s', ofOption toJson s' = u := by
  obtain ⟨s, -, h⟩ := h.ofOption
  obtain ⟨s', hs'⟩ := exists_of_reset h
  exact ⟨some s', hs'⟩

theorem OptionSchema.exists_option_of_reset {s : Option OptionSchema}
    (h : Reset (ofOption toJson s) u) : ∃ s', ofOption toJson s' = u := by
  obtain ⟨s, -, h⟩ := h.ofOption
  obtain ⟨s', hs'⟩ := exists_of_reset h
  exact ⟨some s', hs'⟩

theorem Word.not_reset {w : Word} : ¬ Reset (.obj w.members) u := by
  simp [members, reset_cons_iff, omittable]

theorem Assignment.not_reset {a : Assignment} : ¬ Reset (.obj a.members) u := by
  simp [members, reset_cons_iff, omittable]

theorem Program.exists_of_reset {p : Program} (h : Reset (.obj p.members) u) :
    ∃ p' : Program, p'.span = p.span ∧ .obj p'.members = u := by
  have hu : u = .obj { p with schema := none }.members ∨
      ∃ v, Reset (ofOption CommandSchema.toJson p.schema) v ∧
        u = .obj [("position", p.span.toJson), ("word", .str p.word), ("name", .str p.name),
          ("schema", v)] := by
    simpa [members, reset_cons_iff, omittable] using h
  rcases hu with hu | ⟨v, hv, rfl⟩
  · exact ⟨{ p with schema := none }, rfl, hu.symm⟩
  · obtain ⟨s', rfl⟩ := CommandSchema.exists_option_of_reset hv
    exact ⟨{ p with schema := s' }, rfl, rfl⟩

theorem Subcommand.exists_of_reset {s : Subcommand} (h : Reset (.obj s.members) u) :
    ∃ s' : Subcommand, s'.span = s.span ∧ .obj s'.members = u := by
  have hu : u = .obj { s with schema := none }.members ∨
      ∃ v, Reset (ofOption CommandSchema.toJson s.schema) v ∧
        u = .obj [("position", s.span.toJson), ("word", .str s.word), ("schema", v)] := by
    simpa [members, reset_cons_iff, omittable] using h
  rcases hu with hu | ⟨v, hv, rfl⟩
  · exact ⟨{ s with schema := none }, rfl, hu.symm⟩
  · obtain ⟨s', rfl⟩ := CommandSchema.exists_option_of_reset hv
    exact ⟨{ s with schema := s' }, rfl, rfl⟩

theorem Flag.exists_of_reset {o : Flag} (h : Reset (.obj o.members) u) :
    ∃ o' : Flag, o'.span = o.span ∧ .obj o'.members = u := by
  have hu : u = .obj { o with schema := none }.members ∨
      ∃ v, Reset (ofOption OptionSchema.toJson o.schema) v ∧
        u = .obj [("position", o.span.toJson), ("word", .str o.word), ("opt", .str o.name),
          ("optionSchema", v)] := by
    simpa [members, reset_cons_iff, omittable] using h
  rcases hu with hu | ⟨v, hv, rfl⟩
  · exact ⟨{ o with schema := none }, rfl, hu.symm⟩
  · obtain ⟨s', rfl⟩ := OptionSchema.exists_option_of_reset hv
    exact ⟨{ o with schema := s' }, rfl, rfl⟩

theorem BoundFlag.exists_of_reset {o : BoundFlag} (h : Reset (.obj o.members) u) :
    ∃ option : Flag, option.span = o.option.span ∧ .obj { o with option }.members = u := by
  have hu : ∃ v, Reset (.obj o.option.members) v ∧
      u = .obj [("position", o.span.toJson), ("option", v),
        ("argument", .obj o.argument.members)] := by
    simpa [members, reset_cons_iff, omittable, Word.not_reset] using h
  obtain ⟨v, hv, rfl⟩ := hu
  obtain ⟨option, hspan, rfl⟩ := Flag.exists_of_reset hv
  exact ⟨option, hspan, rfl⟩

theorem Redirect.eq_of_reset {r : Redirect} (h : Reset (.obj r.members) u) :
    u = .obj { r with input := none }.members ∨ u = .obj { r with output := none }.members ∨
      u = .obj { r with outputFd := none }.members := by
  have hdescriptor (d : Option Nat) (v : Json) : ¬ Reset (ofOption ofNat d) v :=
    (plain_ofOption (fun n => plain_num _) d).not_reset
  have hword (w : Option Word) (v : Json) : ¬ Reset (ofOption (fun w => .obj w.members) w) v := by
    intro hv
    obtain ⟨w, -, hv⟩ := hv.ofOption
    exact Word.not_reset hv
  simpa [members, reset_cons_iff, omittable, hdescriptor, hword] using h

end Records

/-! ## Nodes -/

namespace Node

open Json

/-- A node holds numbers that fit if it holds no others than a node of which they fit. -/
theorem Fits.of_subset {n n' : Node} (h : n.Fits) (hspans : n'.spans ⊆ n.spans)
    (hdescriptors : n'.descriptors ⊆ n.descriptors) (hchildren : ∀ c ∈ n'.children, c.Fits) :
    n'.Fits := by
  obtain ⟨hs, hd, -⟩ := h
  exact ⟨fun s hin => hs s (hspans hin), fun d hin => hd d (hdescriptors hin), hchildren⟩

/-- A redirect of which one field is left out holds no more numbers than before. -/
theorem exists_redirect_of_reset {r : Redirect} {u : Json} (h : Reset (.obj r.members) u) :
    ∃ r' : Redirect, (redirect r').spans ⊆ (redirect r).spans ∧
      (redirect r').descriptors ⊆ (redirect r).descriptors ∧ .obj r'.members = u := by
  rcases Redirect.eq_of_reset h with hu | hu | hu
  · exact ⟨{ r with input := none }, by simp [spans], by simp [descriptors], hu.symm⟩
  · exact ⟨{ r with output := none }, by simp [spans], by simp [descriptors], hu.symm⟩
  · exact ⟨{ r with outputFd := none }, by simp [spans], by simp [descriptors], hu.symm⟩

/-- The nodes of an array of which one is changed. -/
theorem exists_children_of_reset {cs : List Node} {u : Json} (hfits : ∀ c ∈ cs, c.Fits)
    (ih : ∀ c ∈ cs, ∀ v, Reset c.toJson v → ∃ c' : Node, c'.Fits ∧ c'.toJson = v)
    (h : Reset (.arr (cs.map toJson)) u) :
    ∃ cs' : List Node, (∀ c ∈ cs', c.Fits) ∧ .arr (cs'.map toJson) = u := by
  obtain ⟨before, v, v', after, hcs, hv, rfl⟩ := h.arr
  obtain ⟨first, rest, rfl, rfl, hrest⟩ := List.map_eq_append_iff.mp hcs
  obtain ⟨c, last, rfl, rfl, rfl⟩ := List.map_eq_cons_iff.mp hrest
  obtain ⟨c', hc', rfl⟩ := ih c (by simp) v' hv
  refine ⟨first ++ c' :: last, ?_, by simp⟩
  simp only [List.forall_mem_append, List.forall_mem_cons] at hfits ⊢
  exact ⟨hfits.1, hc', hfits.2.2⟩

/-- Of a written node, what is changed is never the kind. -/
theorem reset_members_of_reset {n : Node} {u : Json} (h : Reset n.toJson u) :
    ∃ us, Reset (.obj n.members) (.obj us) ∧ u = .obj (("kind", .str n.kind.name) :: us) := by
  rw [toJson_eq] at h
  simpa [reset_cons_iff, omittable] using h

/-- A written node of which one field is as it is when left out is a written node. -/
theorem exists_of_reset {n : Node} (hfits : n.Fits) {u : Json} (h : Reset n.toJson u) :
    ∃ n' : Node, n'.Fits ∧ n'.toJson = u := by
  induction n generalizing u with
  | program p =>
    obtain ⟨us, hus, rfl⟩ := reset_members_of_reset h
    obtain ⟨p', hspan, hp'⟩ := Program.exists_of_reset hus
    obtain rfl := Json.obj.inj hp'
    refine ⟨.program p', hfits.of_subset ?_ (by simp [descriptors]) (List.forall_mem_nil _), rfl⟩
    simp [spans, span, hspan]
  | subcommand s =>
    obtain ⟨us, hus, rfl⟩ := reset_members_of_reset h
    obtain ⟨s', hspan, hs'⟩ := Subcommand.exists_of_reset hus
    obtain rfl := Json.obj.inj hs'
    refine ⟨.subcommand s', hfits.of_subset ?_ (by simp [descriptors]) (List.forall_mem_nil _),
      rfl⟩
    simp [spans, span, hspan]
  | option o =>
    obtain ⟨us, hus, rfl⟩ := reset_members_of_reset h
    obtain ⟨o', hspan, ho'⟩ := Flag.exists_of_reset hus
    obtain rfl := Json.obj.inj ho'
    refine ⟨.option o', hfits.of_subset ?_ (by simp [descriptors]) (List.forall_mem_nil _), rfl⟩
    simp [spans, span, hspan]
  | optionWithArg o =>
    obtain ⟨us, hus, rfl⟩ := reset_members_of_reset h
    obtain ⟨option, hspan, ho'⟩ := BoundFlag.exists_of_reset hus
    obtain rfl := Json.obj.inj ho'
    refine ⟨.optionWithArg { o with option },
      hfits.of_subset ?_ (by simp [descriptors]) (List.forall_mem_nil _), rfl⟩
    simp [spans, hspan]
  | sticky s w os ih =>
    obtain ⟨us, hus, rfl⟩ := reset_members_of_reset h
    have hbelow : ∀ o ∈ os, o.Fits := fun o ho => hfits.of_mem_children ho
    have hoptions : ∃ v, Reset (.arr (os.map toJson)) v ∧
        us = [("position", s.toJson), ("word", .str w), ("options", v)] := by
      simpa [members, reset_cons_iff, omittable] using hus
    obtain ⟨v, hv, rfl⟩ := hoptions
    obtain ⟨os', hos', rfl⟩ :=
      exists_children_of_reset hbelow (fun o ho v => ih o ho (hbelow o ho)) hv
    refine ⟨.sticky s w os', hfits.of_subset ?_ (by simp [descriptors]) hos', ?_⟩
    · simp [spans, span]
    · simp [toJson, kind, Kind.name]
  | assignment a =>
    obtain ⟨us, hus, -⟩ := reset_members_of_reset h
    exact absurd hus Assignment.not_reset
  | redirect r =>
    obtain ⟨us, hus, rfl⟩ := reset_members_of_reset h
    obtain ⟨r', hspans, hdescriptors, hr'⟩ := exists_redirect_of_reset hus
    obtain rfl := Json.obj.inj hr'
    exact ⟨.redirect r', hfits.of_subset hspans hdescriptors (List.forall_mem_nil _), rfl⟩
  | word k w =>
    obtain ⟨us, hus, -⟩ := reset_members_of_reset h
    exact absurd hus Word.not_reset
  | group k s ps ih =>
    obtain ⟨us, hus, rfl⟩ := reset_members_of_reset h
    have hbelow : ∀ p ∈ ps, p.Fits := fun p hp => hfits.of_mem_children hp
    have hparts : ∃ v, Reset (.arr (ps.map toJson)) v ∧
        us = [("position", s.toJson), ("parts", v)] := by
      simpa [members, reset_cons_iff, omittable] using hus
    obtain ⟨v, hv, rfl⟩ := hparts
    obtain ⟨ps', hps', rfl⟩ :=
      exists_children_of_reset hbelow (fun p hp v => ih p hp (hbelow p hp)) hv
    refine ⟨.group k s ps', hfits.of_subset ?_ (by simp [descriptors]) hps', ?_⟩
    · simp [spans, span]
    · simp [toJson, kind]

/-- What the value, and any text that holds it, is decoded to. -/
def DecodesTo (v : Json) (outcome : Decoded Node) : Prop :=
  ofJson v = outcome ∧ ∀ text, Json.read text = .ok v → read text = asData outcome

theorem decodesTo_of_ofJson {v : Json} {outcome : Decoded Node} (h : ofJson v = outcome) :
    DecodesTo v outcome := by
  refine ⟨h, fun text htext => ?_⟩
  rw [Json.read] at htext
  rw [read, readThrough, htext, ← h]

/-- The value, and any text that holds it, is not decoded, and the error about the field is
worded in this way, as no other error is. Behind the wording the text of an error may say
where it was found; that is left out. -/
structure FailsWith (v : Json) (e : DecodeError) (wording : String) : Prop where
  decoded : DecodesTo v (.error e)
  message : e.message = wording
  only : ∀ e' : DecodeError, e'.message = wording → e' = e
  reported : ∀ text, Json.read text = .ok v → ∃ error, readChecked text = .error error ∧
    error.message = "failed to decode command tree: " ++ wording

theorem failsWith_of_ofJson {v : Json} {e : DecodeError} {wording : String}
    (h : ofJson v = .error e) (hfield : e.field?.isSome = true) (hmessage : e.message = wording) :
    FailsWith v e wording := by
  have hdecodes := decodesTo_of_ofJson h
  subst hmessage
  constructor
  case decoded => exact hdecodes
  case message => rfl
  case only => exact fun e' he' => DecodeError.eq_of_message hfield he'
  case reported =>
    intro text htext
    refine ⟨.unreadable (.data e), ?_, rfl⟩
    rw [readChecked, hdecodes.2 text htext]
    rfl

end Node

/-- Of a written node, take any member of any object in it, at whatever depth. Without it
the node is not decoded, and the message names the missing field, unless the field may be
left out: then what is decoded is the node that is written with that field as it is when
left out. With the member repeated, wherever in its object, the node is not decoded either,
and the message names the field as repeated. -/
theorem decoding_fails_fast {n : Node} (hfits : n.Fits) {C : Json.Context}
    {before after : List (String × Json)} {name : String} {value : Json}
    (h : n.toJson = C.plug (.obj (before ++ (name, value) :: after))) :
    (name ∉ Json.omittable.map Prod.fst →
      Node.FailsWith (C.plug (.obj (before ++ after))) (.missingField name)
        ("missing field \x60" ++ name ++ "\x60")) ∧
    (∀ default, (name, default) ∈ Json.omittable →
      ∃ n' : Node, n'.toJson = C.plug (.obj (before ++ (name, default) :: after)) ∧
        Node.DecodesTo (C.plug (.obj (before ++ after))) (.ok n')) ∧
    ∀ before' after', before' ++ after' = before ++ (name, value) :: after →
      Node.FailsWith (C.plug (.obj (before' ++ (name, value) :: after'))) (.duplicateField name)
        ("duplicate field \x60" ++ name ++ "\x60") := by
  have hrefuses := Node.refuses_ofJson hfits
  refine ⟨fun hneeded => ?_, fun default homit => ?_, fun before' after' hms => ?_⟩
  · have hfault : Json.Fault (before ++ (name, value) :: after) (before ++ after)
        (.missingField name) := .missing (decide_eq_true hneeded)
    exact Node.failsWith_of_ofJson (hrefuses C _ _ _ h hfault) rfl
      (DecodeError.message_missingField name)
  · have hreset : Json.Reset n.toJson (C.plug (.obj (before ++ (name, default) :: after))) :=
      ⟨C, before, name, value, default, after, homit, h, rfl⟩
    obtain ⟨n', hfits', hn'⟩ := Node.exists_of_reset hfits hreset
    have hself := n'.presentedBy_toJson
    rw [hn'] at hself
    have hread := Node.recovers_ofJson hfits' (C.plug (.obj (before ++ after)))
    rw [hn'] at hread
    exact ⟨n', hn', Node.decodesTo_of_ofJson (hread (Json.presentedBy_of_omitted homit hself))⟩
  · have hmem : (name, value) ∈ before' ++ after' := by
      rw [hms]
      simp
    rw [← hms] at h
    exact Node.failsWith_of_ofJson (hrefuses C _ _ _ h (.repeated hmem)) rfl
      (DecodeError.message_duplicateField name)

/-- `wc > f`, with what is known of `wc`. -/
def countInto : Node :=
  .group .command ⟨0, 6⟩ [.program ⟨⟨0, 2⟩, "wc", "wc", some ⟨"wc", "count"⟩⟩,
    .redirect ⟨⟨3, 6⟩, .write, none, some ⟨⟨5, 6⟩, "f"⟩, none⟩]

/-- Where in it the schema of the program stands. -/
def countSchema : Json.Context :=
  .member [("kind", .str "command"), ("position", .arr [.ofNat 0, .ofNat 6])] "parts"
    (.item []
      (.member [("kind", .str "program"), ("position", .arr [.ofNat 0, .ofNat 2]),
        ("word", .str "wc"), ("name", .str "wc")] "schema" .hole [])
      [Node.toJson (.redirect ⟨⟨3, 6⟩, .write, none, some ⟨⟨5, 6⟩, "f"⟩, none⟩)]) []

theorem decoding_fails_fast_countInto :
    Node.ofJson (countSchema.plug (.obj [("summary", .str "count")])) =
        .error (.missingField "name") ∧
      Node.ofJson (countSchema.plug (.obj [("summary", .str "count"), ("name", .str "wc"),
        ("summary", .str "count")])) = .error (.duplicateField "summary") ∧
      (∃ n : Node, n.toJson = countSchema.plug (.obj [("name", .str "wc"), ("summary", .str "")]) ∧
        Node.ofJson (countSchema.plug (.obj [("name", .str "wc")])) = .ok n) ∧
      ∃ error, Node.readChecked "\x7b\"position\": [0, 1], \"word\": \"x\"\x7d" = .error error ∧
        error.message = "failed to decode command tree: missing field \x60kind\x60" := by
  have hfits : countInto.Fits := Node.fits_of_ofJson (v := countInto.toJson) rfl
  have hletter : letter.tree.Fits := Node.fits_of_ofJson (v := letter.tree.toJson) rfl
  have hname : countInto.toJson = countSchema.plug
      (.obj ([] ++ ("name", .str "wc") :: [("summary", .str "count")])) := rfl
  have hsummary : countInto.toJson = countSchema.plug
      (.obj ([("name", .str "wc")] ++ ("summary", .str "count") :: [])) := rfl
  have hkind : letter.tree.toJson = Json.Context.hole.plug (.obj ([] ++ ("kind", .str "word") ::
      [("position", .arr [.ofNat 0, .ofNat 1]), ("word", .str "x")])) := rfl
  obtain ⟨hmissing, -, -⟩ := decoding_fails_fast hfits hname
  obtain ⟨-, hreset, hrepeated⟩ := decoding_fails_fast hfits hsummary
  obtain ⟨hkindless, -, -⟩ := decoding_fails_fast hletter hkind
  obtain ⟨n, hn, hread, -⟩ := hreset (.str "") (by simp [Json.omittable])
  exact ⟨(hmissing (by decide)).decoded.1, (hrepeated [] _ rfl).decoded.1, ⟨n, hn, hread⟩,
    (hkindless (by decide)).reported _ rfl⟩

end ShellGloss
