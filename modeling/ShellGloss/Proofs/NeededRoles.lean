import ShellGloss.Proofs.Runs

/-!
# The roles that a document needs

A painter that knows some roles and no others explains a document exactly when it
knows the roles that the leaves need, and fails at the first that it does not know.
Both ways of showing a document fail alike.

The first failure is carried upwards, each time as the first unknown role of the
roles so far: from a run to the runs of a leaf (`Node.outcome_paint`), and from the
leaves to the glosses (`outcome_glosses`), as which the line and the explanation fail
(`Document.outcome_markup`, `Document.outcome_explain`).
-/

namespace ShellGloss

/-- The painter shows a text in the roles that are known, and fails in all others
for want of the role. -/
structure Painter.Knows (p : Painter) (known : Role → Bool) : Prop where
  shows : ∀ r text, known r = true → ∃ shown, p r text = .ok shown
  misses : ∀ r text, known r = false → p r text = .error ⟨r⟩

/-- Fails at the first of the roles that is not known. -/
def requireKnown (known : Role → Bool) (roles : List Role) : Except MissingStyle Unit :=
  match roles.find? fun r => !known r with
  | some r => .error ⟨r⟩
  | none => .ok ()

/-- Whether and how something fails, without what it yields. -/
def outcome {α : Type} (x : Except MissingStyle α) : Except MissingStyle Unit :=
  x.map fun _ => ()

section RequireKnown

variable {known : Role → Bool}

theorem requireKnown_eq_ok_iff {roles : List Role} :
    requireKnown known roles = .ok () ↔ ∀ r ∈ roles, known r = true := by
  rw [requireKnown]
  cases h : roles.find? fun r => !known r with
  | none => simpa using h
  | some r =>
    have hmem := List.mem_of_find?_eq_some h
    have hunknown := List.find?_some h
    simp only [reduceCtorEq, false_iff]
    intro hall
    simp [hall r hmem] at hunknown

theorem requireKnown_eq_error_iff {roles : List Role} {m : MissingStyle} :
    requireKnown known roles = .error m ↔ roles.find? (fun r => !known r) = some m.role := by
  obtain ⟨role⟩ := m
  rw [requireKnown]
  cases roles.find? fun r => !known r with
  | none => simp
  | some r => simp

theorem requireKnown_append (roles more : List Role) :
    requireKnown known (roles ++ more) =
      (do requireKnown known roles; requireKnown known more) := by
  simp only [requireKnown, List.find?_append]
  cases roles.find? fun r => !known r <;> rfl

/-- A role that was needed before is not missed again. -/
theorem requireKnown_cons_cons (r : Role) (roles : List Role) :
    requireKnown known (r :: r :: roles) = requireKnown known (r :: roles) := by
  cases h : known r <;> simp [requireKnown, h]

end RequireKnown

section Outcome

variable {α β γ : Type}

theorem outcome_eq_ok_iff {x : Except MissingStyle α} :
    outcome x = .ok () ↔ ∃ a, x = .ok a := by
  cases x <;> simp [outcome, Except.map]

theorem outcome_eq_error_iff {x : Except MissingStyle α} {m : MissingStyle} :
    outcome x = .error m ↔ x = .error m := by
  cases x <;> simp [outcome, Except.map]

theorem outcome_map (f : α → β) (x : Except MissingStyle α) : outcome (f <$> x) = outcome x := by
  cases x <;> rfl

theorem outcome_bind₂ (f : α → β → γ) (x : Except MissingStyle α) (y : Except MissingStyle β) :
    outcome (do return f (← x) (← y)) = (do outcome x; outcome y) := by
  cases x with
  | error e => rfl
  | ok a => cases y <;> rfl

end Outcome

/-! ## Leaves -/

/-- The roles that a leaf needs, in the order in which they are asked for. -/
def Node.roles : Node → List Role
  | assignment _ => [.assignmentName, .assignmentValue]
  | redirect r => Kind.redirect.role :: r.output.toList.map fun _ => Kind.word.role
  | n => [n.kind.role]

/-- The roles that the leaves of a document need. -/
def Document.roles (d : Document) : List Role :=
  d.tree.leaves.flatMap Node.roles

/-- The roles that runs are painted in. -/
def runRoles (rs : List Run) : List Role :=
  rs.flatMap fun r => r.role.toList

section Knows

variable {p : Painter} {known : Role → Bool}

theorem Run.outcome_paint (hp : p.Knows known) (r : Run) :
    outcome (r.paint p) = requireKnown known r.role.toList := by
  obtain ⟨role, text⟩ := r
  cases role with
  | none => rfl
  | some role =>
    rw [paint]
    cases hrole : known role with
    | true =>
      obtain ⟨shown, hshown⟩ := hp.shows role text hrole
      simp [hshown, outcome, Except.map, requireKnown, hrole]
    | false => simp [hp.misses role text hrole, outcome, Except.map, requireKnown, hrole]

theorem outcome_paintRuns (hp : p.Knows known) (rs : List Run) :
    outcome (paintRuns p rs) = requireKnown known (runRoles rs) := by
  induction rs with
  | nil => rfl
  | cons r rs ih =>
    have hroles : runRoles (r :: rs) = r.role.toList ++ runRoles rs := List.flatMap_cons
    rw [paintRuns_cons, outcome_bind₂, r.outcome_paint hp, ih, hroles, requireKnown_append]

/-- The runs of a leaf fail at the first role that the leaf needs and that is not known. -/
theorem Node.requireKnown_runRoles (leaf : Node) (text : String) :
    requireKnown known (runRoles (leaf.runs text)) = requireKnown known leaf.roles := by
  cases leaf with
  | redirect r =>
    obtain ⟨span, op, input, output, outputFd⟩ := r
    -- a descriptor asks for the role of the operator once more
    cases input <;> cases output <;> cases outputFd <;>
      simp [runs, roles, runRoles, descriptorRuns, Redirect.targetRuns, Run.ofKind, Run.copied,
        requireKnown_cons_cons]
  | _ => rfl

theorem Node.outcome_paint (hp : p.Knows known) (leaf : Node) (text : String) :
    outcome (leaf.paint p text) = requireKnown known leaf.roles := by
  rw [paint_eq_paintRuns, outcome_paintRuns hp, requireKnown_runRoles]

theorem Node.outcome_gloss (hp : p.Knows known) (source : String) (leaf : Node) :
    outcome (leaf.gloss p source) = requireKnown known leaf.roles := by
  rw [gloss, ← leaf.outcome_paint hp (leaf.span.slice source)]
  cases leaf.paint p (leaf.span.slice source) <;> rfl

theorem outcome_glosses (hp : p.Knows known) (source : String) (leaves : List Node) :
    outcome (glosses p source leaves) = requireKnown known (leaves.flatMap Node.roles) := by
  induction leaves with
  | nil => rfl
  | cons leaf leaves ih =>
    rw [glosses] at ih
    rw [glosses, List.mapM_cons, outcome_bind₂, leaf.outcome_gloss hp, ih, List.flatMap_cons,
      requireKnown_append]

end Knows

/-! ## Documents -/

namespace Document

variable {d : Document}

/-- The line fails as the glosses do, for any painter. -/
theorem outcome_markup (hd : d.check = .ok ()) (p : Painter) :
    outcome (markup p d.source d.tree.leaves) = outcome (glosses p d.source d.tree.leaves) := by
  rw [markup_eq_splice (laidOut_leaves hd), outcome_map]

/-- The explanation fails as the glosses do, for any painter. -/
theorem outcome_explain (hd : d.check = .ok ()) (p : Painter) :
    outcome (d.explain p) = outcome (glosses p d.source d.tree.leaves) := by
  rw [explain_eq_splice hd, outcome_map]

end Document

/-- The roles of kinds that no leaf of a checked document is painted in: the groups,
the sticky word, and the assignment as a whole. -/
def unneededRoles : List Role :=
  [Kind.command, .list, .pipeline, .stickyOption, .assignment].map Kind.role

theorem Node.roles_needed {leaf : Node} (h : leaf.isTerminal = true) :
    ∀ r ∈ leaf.roles, r ∉ unneededRoles := by
  cases leaf with
  | sticky _ _ _ => simp [isTerminal] at h
  | group _ _ _ => simp [isTerminal] at h
  | word k w => cases k <;> simp [roles, kind, WordKind.kind, Kind.role, unneededRoles]
  | redirect r => cases hout : r.output <;> simp [roles, hout, Kind.role, unneededRoles]
  | _ => simp [roles, kind, Kind.role, unneededRoles]

theorem Document.roles_needed {d : Document} (hd : d.check = .ok ()) :
    ∀ r ∈ d.roles, r ∉ unneededRoles := by
  intro r hr
  obtain ⟨leaf, hleaf, hr⟩ := List.mem_flatMap.mp hr
  obtain ⟨path, ht⟩ := Node.exists_terminalAt (check_eq_ok_iff.mp hd).1 hleaf
  exact Node.roles_needed ht.isTerminal r hr

/-- Let a painter know some roles and no others. It explains a document that was
read and checked exactly when it knows every role that the leaves need, and
otherwise fails for want of the first of them that it does not know. The line and
the glosses, each made by itself, fail as the explanation does. The roles of groups,
of sticky words and of assignments as a whole are never needed, so that a painter
that lacks only these explains every such document. -/
theorem explain_fails_at_first_unknown {text : String} {d : Document}
    (hd : Document.readChecked text = .ok d) {p : Painter} {known : Role → Bool}
    (hp : p.Knows known) :
    ((∃ e, d.explain p = .ok e) ↔ ∀ r ∈ d.roles, known r = true) ∧
    (∀ m, d.explain p = .error m ↔ d.roles.find? (fun r => !known r) = some m.role) ∧
    outcome (markup p d.source d.tree.leaves) = outcome (d.explain p) ∧
    outcome (glosses p d.source d.tree.leaves) = outcome (d.explain p) ∧
    (∀ r ∈ d.roles, r ∉ unneededRoles) ∧
    ((∀ r, known r = false → r ∈ unneededRoles) → ∃ e, d.explain p = .ok e) := by
  have hcheck := (Document.readChecked_eq_ok_iff.mp hd).2
  have hline := Document.outcome_markup hcheck p
  have hexplain := Document.outcome_explain hcheck p
  have hroles : outcome (d.explain p) = requireKnown known d.roles := by
    rw [hexplain, outcome_glosses hp, Document.roles]
  have hok : (∃ e, d.explain p = .ok e) ↔ ∀ r ∈ d.roles, known r = true := by
    rw [← outcome_eq_ok_iff, hroles, requireKnown_eq_ok_iff]
  refine ⟨hok, fun m => ?_, hline.trans hexplain.symm, hexplain.symm,
    Document.roles_needed hcheck, ?_⟩
  · rw [← outcome_eq_error_iff, hroles, requireKnown_eq_error_iff]
  · intro hlacks
    refine hok.mpr fun r hr => ?_
    cases hknown : known r with
    | true => rfl
    | false => exact absurd (hlacks r hknown) (Document.roles_needed hcheck r hr)

/-- The painter that shows texts as they are in the roles that are known. -/
def Painter.knowing (known : Role → Bool) : Painter :=
  fun r text => if known r then .ok text else .error ⟨r⟩

theorem Painter.knows_knowing (known : Role → Bool) : (knowing known).Knows known where
  shows := fun r text h => ⟨text, by simp [knowing, h]⟩
  misses := fun r text h => by simp [knowing, h]

/-- A painter that lacks the word after a redirect and, what does not matter, commands. -/
theorem explain_fails_at_first_unknown_word :
    ∃ d, Document.readChecked overrunText = .ok d ∧
      (Painter.knowing fun r => r ∉ [.kind .word, .kind .command]).Knows
        (fun r => r ∉ [.kind .word, .kind .command]) ∧
      d.roles = [.assignmentName, .assignmentValue, .kind .program, .kind .redirect, .kind .word] ∧
      d.explain (Painter.knowing fun r => r ∉ [.kind .word, .kind .command]) =
        .error ⟨.kind .word⟩ := by
  have hroles : (Document.readChecked overrunText).toOption.map Document.roles =
      some [.assignmentName, .assignmentValue, .kind .program, .kind .redirect, .kind .word] := by
    decide +kernel
  obtain ⟨d, hd, hroles⟩ := Option.map_eq_some_iff.mp hroles
  have hd := eq_ok_of_toOption hd
  have hknows := Painter.knows_knowing fun r => r ∉ [.kind .word, .kind .command]
  refine ⟨d, hd, hknows, hroles, ((explain_fails_at_first_unknown hd hknows).2.1 _).mpr ?_⟩
  rw [hroles]
  decide

end ShellGloss
