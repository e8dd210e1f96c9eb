import ShellGloss.Proofs.FieldFaults
import ShellGloss.Proofs.RoundTrip

/-!
# Faults in a written node

The records of a node are strict about their fields (`Fields.Strict`), which is found by
the way in which each is described, and guard the values that are records or nodes again.
So every record refuses what is written of it, and a tree does by induction
(`Node.refuses_ofJson`).

The kind of a node is looked for before its fields are read, and is no field itself. A
fault of the kind is reported by the search, and any other leaves the search as it was
(`Node.findKind_eq_filter`).
-/

namespace ShellGloss

/-! ## Records -/

section Records

open Fields Json

theorem Span.strict_field : field.Strict :=
  strict_required (by decide)

theorem CommandSchema.strict_fields : fields.Strict :=
  ((strict_required (by decide)).map _).seq (strict_optional (by decide))

theorem OptionSchema.strict_fields : fields.Strict :=
  (((((strict_optional (by decide)).map _).seq (strict_optional (by decide))).seq
    (strict_optional (by decide))).seq (strict_optional (by decide))).seq
      (strict_optional (by decide))

theorem Word.strict_fields : fields.Strict :=
  (Span.strict_field.map _).seq (strict_required (by decide))

theorem Program.strict_fields : fields.Strict :=
  (((Span.strict_field.map _).seq (strict_required (by decide))).seq
    (strict_required (by decide))).seq (strict_optional (by decide))

theorem Subcommand.strict_fields : fields.Strict :=
  ((Span.strict_field.map _).seq (strict_required (by decide))).seq (strict_optional (by decide))

theorem Flag.strict_fields : fields.Strict :=
  (((Span.strict_field.map _).seq (strict_required (by decide))).seq
    (strict_required (by decide))).seq (strict_optional (by decide))

theorem BoundFlag.strict_fields : fields.Strict :=
  ((Span.strict_field.map _).seq (strict_required (by decide))).seq (strict_required (by decide))

theorem Assignment.strict_fields : fields.Strict :=
  ((Span.strict_field.map _).seq (strict_required (by decide))).seq (strict_required (by decide))

theorem Redirect.strict_fields : fields.Strict :=
  ((((Span.strict_field.map _).seq (strict_required (by decide))).seq
    (strict_optional (by decide))).seq (strict_optional (by decide))).seq
      (strict_optional (by decide))

theorem CommandSchema.refuses (s : CommandSchema) : Refuses fields.read s.toJson := by
  have hread : fields.read s.toJson = .ok s := s.recovers _ (.self (by simp) (by simp))
  refine Fields.refuses strict_fields (by decide) rfl hread ?_
  simp [Guards, plain_str]

theorem OptionSchema.refuses (s : OptionSchema) : Refuses fields.read s.toJson := by
  have hread : fields.read s.toJson = .ok s := s.recovers _ (.self (by simp) (by simp))
  refine Fields.refuses strict_fields (by decide) rfl hread ?_
  simp [Guards, plain_str, plain_bool, plain_ofTexts]

theorem Word.guards_members (w : Word) : ∀ m ∈ w.members, fields.Guards m := by
  simp [members, Guards, plain_str, Span.plain_toJson]

theorem Program.guards_members (p : Program) : ∀ m ∈ p.members, fields.Guards m := by
  have hschema : fields.Guards ("schema", .ofOption CommandSchema.toJson p.schema) :=
    .inr ⟨_, rfl, (Refuses.option fun s _ => s.refuses).map _⟩
  simp only [members, List.forall_mem_cons, hschema]
  simp [Guards, plain_str, Span.plain_toJson]

theorem Subcommand.guards_members (s : Subcommand) : ∀ m ∈ s.members, fields.Guards m := by
  have hschema : fields.Guards ("schema", .ofOption CommandSchema.toJson s.schema) :=
    .inr ⟨_, rfl, (Refuses.option fun s _ => s.refuses).map _⟩
  simp only [members, List.forall_mem_cons, hschema]
  simp [Guards, plain_str, Span.plain_toJson]

theorem Flag.guards_members (o : Flag) : ∀ m ∈ o.members, fields.Guards m := by
  have hschema : fields.Guards ("optionSchema", .ofOption OptionSchema.toJson o.schema) :=
    .inr ⟨_, rfl, (Refuses.option fun s _ => s.refuses).map _⟩
  simp only [members, List.forall_mem_cons, hschema]
  simp [Guards, plain_str, Span.plain_toJson]

theorem Assignment.guards_members (a : Assignment) : ∀ m ∈ a.members, fields.Guards m := by
  simp [members, Guards, plain_str, Span.plain_toJson]

theorem Word.refuses {w : Word} (h : w.span.Fits) : Refuses fields.read (.obj w.members) :=
  Fields.refuses strict_fields (by decide) rfl (recovers h _ w.presentedBy_self) w.guards_members

theorem Flag.refuses {o : Flag} (h : o.span.Fits) : Refuses fields.read (.obj o.members) :=
  Fields.refuses strict_fields (by decide) rfl (recovers h _ o.presentedBy_self) o.guards_members

theorem BoundFlag.guards_members {o : BoundFlag} (hoption : o.option.span.Fits)
    (hargument : o.argument.span.Fits) : ∀ m ∈ o.members, fields.Guards m := by
  have hflag : fields.Guards ("option", .obj o.option.members) :=
    .inr ⟨_, rfl, (Flag.refuses hoption).map _⟩
  have hword : fields.Guards ("argument", .obj o.argument.members) :=
    .inr ⟨_, rfl, (Word.refuses hargument).map _⟩
  simp only [members, List.forall_mem_cons, hflag, hword]
  simp [Guards, Span.plain_toJson]

theorem Redirect.guards_members {r : Redirect} (houtput : ∀ w ∈ r.output, w.span.Fits) :
    ∀ m ∈ r.members, fields.Guards m := by
  have hword : fields.Guards ("output", .ofOption (fun w => .obj w.members) r.output) :=
    .inr ⟨_, rfl, (Refuses.option fun w hw => Word.refuses (houtput w hw)).map _⟩
  have hdescriptor (d : Option Nat) : Plain (.ofOption .ofNat d) :=
    plain_ofOption (fun n => plain_num _) d
  simp only [members, List.forall_mem_cons, hword]
  simp [Guards, plain_str, Span.plain_toJson, hdescriptor]

end Records

/-! ## Nodes -/

namespace Node

theorem Fits.of_mem_children {n c : Node} (h : n.Fits) (hc : c ∈ n.children) : c.Fits := by
  obtain ⟨-, -, hbelow⟩ := h
  exact hbelow c hc

open Fields
open Json (Refuses Fault Context isNeeded plain_str)

theorem strict_flat {α : Type} {f : Fields Json α} (h : f.Strict) (make : α → Node) :
    (flat make f).Strict :=
  (h.comap _).map make

/-- No kind of node can do without a field, unless it may be left out. -/
theorem strict_fields (k : Kind) : (fields k).Strict := by
  have hspan : (Span.field.comap Slot.value).Strict := Span.strict_field.comap _
  have hgroup (k : GroupKind) : (groupFields k).Strict :=
    (hspan.map _).seq (strict_required (by decide))
  cases k with
  | program => exact strict_flat Program.strict_fields _
  | subcommand => exact strict_flat Subcommand.strict_fields _
  | option => exact strict_flat Flag.strict_fields _
  | optionWithArg => exact strict_flat BoundFlag.strict_fields _
  | stickyOption =>
    exact ((hspan.map _).seq (strict_required (by decide))).seq (strict_required (by decide))
  | assignment => exact strict_flat Assignment.strict_fields _
  | redirect => exact strict_flat Redirect.strict_fields _
  | argument | operator | pipe | reservedWord | word | superuser =>
    exact strict_flat Word.strict_fields _
  | command | list | pipeline => exact hgroup _

theorem guards_flat {α : Type} {f : Fields Json α} {m : String × Json} (h : f.Guards m)
    (make : α → Node) : ((flat make f).comap slot).Guards m := by
  rcases h with hplain | ⟨check, hcheck, hrefuses⟩
  · exact .inl hplain
  · have hchecks : ((flat make f).comap slot).checks = f.checks := by
      show List.map _ ([] ++ List.map _ f.checks) = f.checks
      rw [List.nil_append, List.map_map]
      exact List.map_id f.checks
    exact .inr ⟨check, by rw [hchecks, hcheck], hrefuses⟩

theorem guards_members {n : Node} (hfits : n.Fits)
    (hchildren : ∀ c ∈ n.children, Refuses ofInnerJson c.toJson) :
    ∀ m ∈ n.members, ((fields n.kind).comap slot).Guards m := by
  obtain ⟨hspans, -, hbelow⟩ := hfits
  have hnodes : Refuses listOfInnerJson (.arr (n.children.map toJson)) := by
    have hread : ∀ c ∈ n.children, ofInnerJson c.toJson = .ok c := fun c hc =>
      recovers_ofInnerJson (hbelow c hc) _ c.presentedBy_toJson
    have hlist := Refuses.list hread hchildren
    rwa [← funext listOfInnerJson_eq_readList] at hlist
  cases n with
  | program p => exact fun m hm => guards_flat (p.guards_members m hm) program
  | subcommand s => exact fun m hm => guards_flat (s.guards_members m hm) subcommand
  | option o => exact fun m hm => guards_flat (o.guards_members m hm) option
  | optionWithArg o =>
    have hoption : o.option.span.Fits := hspans _ (by simp [spans])
    have hargument : o.argument.span.Fits := hspans _ (by simp [spans])
    exact fun m hm => guards_flat (BoundFlag.guards_members hoption hargument m hm) optionWithArg
  | sticky s w os =>
    simp only [members, List.forall_mem_cons]
    exact ⟨.inl s.plain_toJson, .inl (plain_str w), .inr ⟨_, rfl, hnodes.map _⟩,
      List.forall_mem_nil _⟩
  | assignment a => exact fun m hm => guards_flat (a.guards_members m hm) assignment
  | redirect r =>
    have houtput : ∀ w ∈ r.output, w.span.Fits := fun w hw => hspans _ (by simp_all [spans])
    exact fun m hm => guards_flat (Redirect.guards_members houtput m hm) redirect
  | word k w =>
    rw [kind, fields_wordKind]
    exact fun m hm => guards_flat (w.guards_members m hm) (word k)
  | group k s ps =>
    rw [kind, fields_groupKind]
    simp only [members, List.forall_mem_cons]
    exact ⟨.inl s.plain_toJson, .inr ⟨_, rfl, hnodes.map _⟩, List.forall_mem_nil _⟩

/-! ### Faulty members -/

/-- What a reader of the kind makes of the members of a node, with one fault in them. -/
theorem ofKinded_of_fault {readKind : Json → Decoded Kind} {k : Kind} {v : Json}
    {ms ms' : List (String × Json)} {e : DecodeError} (hk : readKind v = .ok k)
    (honce : ms.filter (fun m => m.1 = "kind") = [("kind", v)])
    (hfilled : ((fields k).comap slot).Filled ms)
    (hfields : ∀ m ∈ ms, m.1 ≠ "kind" → m.1 ∈ ((fields k).comap slot).names)
    (hfault : Fault ms ms' e) : ofKinded readKind (.obj ms') = .error e := by
  have hnames : ((fields k).comap slot).names.Nodup := by
    rw [names_comap]
    exact nodup_names k
  cases hfault with
  | @missing before after m hneeded =>
    by_cases hm : m.1 = "kind"
    · have hnone : (before ++ after).filter (fun m => m.1 = "kind") = [] := by
        have hlength := congrArg List.length honce
        simp only [List.filter_append, List.filter_cons, hm, decide_true, if_true,
          List.length_append, List.length_cons, List.length_nil] at hlength
        rw [← List.length_eq_zero_iff, List.filter_append, List.length_append]
        omega
      rw [ofKinded, ofMembers, map_value_memberSlots, findKind_eq_filter, hnone, hm]
      rfl
    · have hfilter : (before ++ after).filter (fun m => m.1 = "kind") = [("kind", v)] := by
        rw [← honce]
        simp [List.filter_append, hm]
      rw [ofKinded_obj_of_kind (findKind_of_filter hk hfilter)]
      exact hfilled.readMembers_of_missing ((strict_fields k).comap slot) hnames
        (hfields m (by simp) hm) hneeded
  | @repeated before after m hmem =>
    by_cases hm : m.1 = "kind"
    · have hkept : m ∈ (before ++ after).filter (fun m => m.1 = "kind") :=
        List.mem_filter.mpr ⟨hmem, by simpa using hm⟩
      rw [honce, List.mem_singleton] at hkept
      subst hkept
      have htwice : (before ++ ("kind", v) :: after).filter (fun m => m.1 = "kind") =
          [("kind", v), ("kind", v)] := by
        rw [List.filter_append, List.append_eq_singleton_iff] at honce
        rcases honce with ⟨hbefore, hafter⟩ | ⟨hbefore, hafter⟩ <;>
          simp [List.filter_append, hbefore, hafter]
      rw [ofKinded, ofMembers, map_value_memberSlots, findKind_eq_filter, htwice]
      simp only [findKind, hk]
      rfl
    · have hfilter : (before ++ m :: after).filter (fun m => m.1 = "kind") = [("kind", v)] := by
        rw [← honce]
        simp [List.filter_append, hm]
      rw [ofKinded_obj_of_kind (findKind_of_filter hk hfilter)]
      exact hfilled.readMembers_of_repeated hmem (hfields m hmem hm)

/-- A node refuses what is written of it, if the nodes below it do. -/
theorem refuses_ofKinded {readKind : Json → Decoded Kind} {n : Node}
    (hkind : readKind (.str n.kind.name) = .ok n.kind) (hfits : n.Fits)
    (hchildren : ∀ c ∈ n.children, Refuses ofInnerJson c.toJson) :
    Refuses (ofKinded readKind) n.toJson := by
  have hother : "kind" ∉ n.members.map Prod.fst := by
    rw [map_fst_members]
    exact (List.nodup_cons.mp (nodup_kind_names n.kind)).1
  have honce : (("kind", Json.str n.kind.name) :: n.members).filter (fun m => m.1 = "kind") =
      [("kind", .str n.kind.name)] := by
    have hnone : n.members.filter (fun m => m.1 = "kind") = [] := by
      rw [List.filter_eq_nil_iff]
      intro m hm hname
      exact hother (of_decide_eq_true hname ▸ List.mem_map_of_mem hm)
    rw [List.filter_cons_of_pos (by simp), hnone]
  have hfilled : ((fields n.kind).comap slot).Filled (("kind", .str n.kind.name) :: n.members) := by
    have hself := n.presentedBy_toJson
    rw [toJson_eq] at hself
    have hread := recovers_members hfits
      (fun c hc => recovers_ofInnerJson (hfits.of_mem_children hc)) _ hself.tail
    refine ⟨(andThen_eq_ok_iff.mp hread).1, fun name hname => ?_⟩
    rw [names_comap, ← map_fst_members] at hname
    exact List.mem_cons_of_mem _ hname
  intro C inner inner' e hv hfault
  rw [toJson_eq] at hv
  cases C with
  | hole =>
    obtain rfl := Json.obj.inj hv
    refine ofKinded_of_fault hkind honce hfilled (fun m hm hname => ?_) hfault
    rw [names_comap, ← map_fst_members]
    rcases List.mem_cons.mp hm with rfl | hm
    · exact absurd rfl hname
    · exact List.mem_map_of_mem hm
  | item before C after => cases hv
  | member before name C after =>
    have hms := Json.obj.inj hv
    rw [hms] at honce hfilled
    have hmem : (name, C.plug (.obj inner)) ∈ ("kind", Json.str n.kind.name) :: n.members := by
      rw [hms]
      simp
    rcases List.mem_cons.mp hmem with hkindMember | hmember
    · -- the kind is written as a text
      exact absurd (Prod.mk.inj hkindMember).2.symm (plain_str _ C inner)
    · have hname : name ≠ "kind" := fun h => hother (h ▸ List.mem_map_of_mem hmember)
      have hfilter : (before ++ (name, C.plug (.obj inner')) :: after).filter
          (fun m => m.1 = "kind") = [("kind", .str n.kind.name)] := by
        rw [← honce]
        simp [List.filter_append, hname]
      rw [Context.plug, ofKinded_obj_of_kind (findKind_of_filter hkind hfilter)]
      exact readMembers_of_guards hfilled (guards_members hfits hchildren _ hmember) hfault

theorem refuses_ofInnerJson {n : Node} (h : n.Fits) : Refuses ofInnerJson n.toJson := by
  induction h with
  | @node n hspans hdescriptors hbelow ih =>
    have hkind : Kind.ofJsonOrNumber (.str n.kind.name) = .ok n.kind := by
      simp [Kind.ofJsonOrNumber, Kind.ofJson]
    rw [ofInnerJson_eq_ofKinded]
    exact refuses_ofKinded hkind ⟨hspans, hdescriptors, hbelow⟩ ih

/-- Every fault in a written node is reported, at whatever depth it is. -/
theorem refuses_ofJson {n : Node} (h : n.Fits) : Refuses ofJson n.toJson := by
  have hkind : Kind.ofJson (.str n.kind.name) = .ok n.kind := by simp [Kind.ofJson]
  rw [ofJson_eq_ofKinded]
  exact refuses_ofKinded hkind h fun c hc => refuses_ofInnerJson (h.of_mem_children hc)

end Node

end ShellGloss
