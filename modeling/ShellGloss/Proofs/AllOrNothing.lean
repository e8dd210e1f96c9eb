import ShellGloss.CommandLine
import ShellGloss.Proofs.CompleteThemes

/-!
# All or nothing

A run prints the whole explanation of its input, or nothing. How it ends is said by
`Ends`, one rule for each of the five ways and none for an explanation that fails:
whatever painter a run has got hold of knows every role (`Flags.knows_painter`).
-/

namespace ShellGloss

/-! ## Arguments -/

/-- The arguments that are known. -/
def knownArguments : List String :=
  ["--no-color", "--validate-only", "--leaves"]

namespace Flags

/-- What a list of known arguments asks for: what any of them asks for. -/
def ofArguments (arguments : List String) : Flags :=
  ⟨"--no-color" ∈ arguments, "--validate-only" ∈ arguments, "--leaves" ∈ arguments⟩

/-- The flags of either of two. -/
def or (f g : Flags) : Flags :=
  ⟨f.plain || g.plain, f.checkOnly || g.checkOnly, f.showLeaves || g.showLeaves⟩

theorem add?_eq_some_iff {f g : Flags} {argument : String} :
    f.add? argument = some g ↔ argument ∈ knownArguments ∧ g = f.or (ofArguments [argument]) := by
  simp only [add?, knownArguments, List.mem_cons, List.not_mem_nil, or_false]
  split
  · rename_i h
    simp [h, or, ofArguments, eq_comm]
  · split
    · rename_i h
      simp [h, or, ofArguments, eq_comm]
    · split
      · rename_i h
        simp [h, or, ofArguments, eq_comm]
      · rename_i hplain hcheck hleaves
        simp [hplain, hcheck, hleaves]

theorem or_ofArguments_cons (f : Flags) (argument : String) (rest : List String) :
    (f.or (ofArguments [argument])).or (ofArguments rest) =
      f.or (ofArguments (argument :: rest)) := by
  simp [or, ofArguments, Bool.or_assoc, eq_comm]

theorem addAll_eq_ok_iff {f g : Flags} {arguments : List String} :
    f.addAll arguments = .ok g ↔
      (∀ a ∈ arguments, a ∈ knownArguments) ∧ g = f.or (ofArguments arguments) := by
  induction arguments generalizing f with
  | nil => simp [addAll, or, ofArguments, eq_comm]
  | cons argument rest ih =>
    rw [addAll, List.forall_mem_cons]
    cases h : f.add? argument with
    | none =>
      have hunknown : argument ∉ knownArguments := fun hknown => by
        rw [add?_eq_some_iff.mpr ⟨hknown, rfl⟩] at h
        cases h
      simp [hunknown]
    | some f' =>
      obtain ⟨hknown, rfl⟩ := add?_eq_some_iff.mp h
      simp only [ih, or_ofArguments_cons, hknown, true_and]

/-- The arguments ask for something when all of them are known. -/
theorem read_eq_ok_iff {f : Flags} {arguments : List String} :
    read arguments = .ok f ↔
      (∀ a ∈ arguments, a ∈ knownArguments) ∧ f = ofArguments arguments :=
  addAll_eq_ok_iff

end Flags

/-! ## Configurations of a run -/

/-- A run has the standard configuration, with the overlay applied if one can be read. -/
theorem Config.load_eq (overlay : Option String) :
    (load overlay).1 = match overlay.bind Overlay.read? with
      | some o => standard.apply o
      | none => standard := by
  cases overlay with
  | none => rfl
  | some text =>
    rw [load, overlay?, overlayBy?, Option.bind_some]
    cases Overlay.read? text <;> rfl

/-! ## Painters of a run -/

/-- A painter that a configuration has knows every role. -/
theorem Config.knows_painter {c : Config} {mode : ColorMode} {p : Painter}
    (h : c.painter mode = .ok p) : p.Knows fun _ => true := by
  rw [painter] at h
  split at h
  · obtain ⟨t, ht, rfl⟩ := map_eq_ok_iff.mp h
    exact Theme.knows_painter (exists_style_of_completeTheme ht) mode
  · obtain rfl : Painter.plain = p := Except.ok.inj h
    exact Painter.knows_plain

/-- The painter of a run: the plain one if that is asked for, or else that of the
configuration. -/
def Flags.painter (f : Flags) (mode : ColorMode) (config : Config) : Except ThemeError Painter :=
  if f.plain then .ok .plain else config.painter mode

theorem Flags.knows_painter {f : Flags} {mode : ColorMode} {config : Config} {p : Painter}
    (h : f.painter mode config = .ok p) : p.Knows fun _ => true := by
  rw [painter] at h
  split at h
  · obtain rfl : Painter.plain = p := Except.ok.inj h
    exact Painter.knows_plain
  · exact config.knows_painter h

/-- A document that is to be explained is explained if the run has a painter. -/
theorem Outcome.ofDocument_of_painter {f : Flags} {mode : ColorMode} {config : Config}
    {d : Document} {p : Painter} (hcheck : f.checkOnly = false)
    (hpainter : f.painter mode config = .ok p) :
    ∃ e, d.explain p = .ok e ∧ ofDocument f mode config d =
      ⟨0, e.print f.showLeaves, [], d.record :: d.explainRecords p⟩ := by
  obtain ⟨e, he⟩ := d.exists_explain (Flags.knows_painter hpainter)
  rw [Flags.painter] at hpainter
  exact ⟨e, he, by simp only [ofDocument, hcheck, hpainter, he]; rfl⟩

/-- Without a painter the run fails and prints nothing. -/
theorem Outcome.ofDocument_of_no_painter {f : Flags} {mode : ColorMode} {config : Config}
    {d : Document} {e : ThemeError} (hcheck : f.checkOnly = false)
    (hpainter : f.painter mode config = .error e) :
    ofDocument f mode config d = .failure e.message [d.record] := by
  rw [Flags.painter] at hpainter
  simp only [ofDocument, hcheck, hpainter]
  rfl

/-- A document that is only checked prints nothing. -/
theorem Outcome.ofDocument_of_checkOnly {f : Flags} {mode : ColorMode} {config : Config}
    {d : Document} (hcheck : f.checkOnly = true) :
    ofDocument f mode config d = ⟨0, "", [], [d.record]⟩ := by
  rw [ofDocument, if_pos hcheck]

/-! ## What is printed -/

/-- The lines that show a gloss: its text and its meaning, and below them the kind and
the span of the leaf if these are asked for. -/
def Gloss.lines (showLeaves : Bool) (g : Gloss) : List String :=
  ("  " ++ g.text ++ g.meaning.elim "" ("  " ++ ·)) ::
    if showLeaves then ["      " ++ g.kind.name ++ " " ++ g.span.render] else []

/-- The lines that show an explanation: the line that is explained, an empty one, and
the lines of the glosses in order. -/
def Explanation.lines (showLeaves : Bool) (e : Explanation) : List String :=
  e.line :: "" :: e.glosses.flatMap (Gloss.lines showLeaves)

/-- Lines as a text, each ended by a line feed. -/
def unlines (lines : List String) : String :=
  String.join (lines.map (· ++ "\n"))

theorem unlines_cons (l : String) (ls : List String) :
    unlines (l :: ls) = l ++ "\n" ++ unlines ls := by
  rw [unlines, List.map_cons, String.join_cons, ← unlines]

theorem unlines_append (ls ls' : List String) : unlines (ls ++ ls') = unlines ls ++ unlines ls' := by
  rw [unlines, List.map_append, String.join_append, ← unlines, ← unlines]

theorem Gloss.print_eq_unlines (showLeaves : Bool) (g : Gloss) :
    g.print showLeaves = unlines (g.lines showLeaves) := by
  obtain ⟨kind, span, text, meaning⟩ := g
  cases meaning <;> cases showLeaves <;>
    simp [print, lines, unlines, String.join_cons, String.append_assoc]

theorem Explanation.print_eq_unlines (showLeaves : Bool) (e : Explanation) :
    e.print showLeaves = unlines (e.lines showLeaves) := by
  have hglosses (gs : List Gloss) : String.join (gs.map (Gloss.print showLeaves)) =
      unlines (gs.flatMap (Gloss.lines showLeaves)) := by
    induction gs with
    | nil => rfl
    | cons g gs ih =>
      rw [List.map_cons, String.join_cons, ih, List.flatMap_cons, unlines_append,
        g.print_eq_unlines]
  have hbreaks : "\n\n" = "\n" ++ ("" ++ "\n") := by decide
  rw [print, hglosses, lines, unlines_cons, unlines_cons, hbreaks]
  simp only [String.append_assoc]

/-! ## Ways to end -/

/-- How a run on an input that is a text ends: the exit code and what is printed. -/
inductive Ends (arguments : List String) (mode : ColorMode) (config : Config) (text : String) :
    Nat → String → Prop where
  | unknownArgument (unknown : ∃ a ∈ arguments, a ∉ knownArguments) :
      Ends arguments mode config text 2 ""
  | refused {e : InputError} (known : ∀ a ∈ arguments, a ∈ knownArguments)
      (read : Document.readChecked text = .error e) : Ends arguments mode config text 1 ""
  | checked {d : Document} (known : ∀ a ∈ arguments, a ∈ knownArguments)
      (read : Document.readChecked text = .ok d) (checkOnly : "--validate-only" ∈ arguments) :
      Ends arguments mode config text 0 ""
  | noPainter {d : Document} {e : ThemeError} (known : ∀ a ∈ arguments, a ∈ knownArguments)
      (read : Document.readChecked text = .ok d) (explain : "--validate-only" ∉ arguments)
      (painter : (Flags.ofArguments arguments).painter mode config = .error e) :
      Ends arguments mode config text 1 ""
  | explained {d : Document} {p : Painter} {e : Explanation}
      (known : ∀ a ∈ arguments, a ∈ knownArguments)
      (read : Document.readChecked text = .ok d) (explain : "--validate-only" ∉ arguments)
      (painter : (Flags.ofArguments arguments).painter mode config = .ok p)
      (explanation : d.explain p = .ok e) :
      Ends arguments mode config text 0 (unlines (e.lines ("--leaves" ∈ arguments)))

section Ends

variable {arguments : List String} {mode : ColorMode} {config : Config} {text output : String}
  {code : Nat}

theorem Ends.code_mem (h : Ends arguments mode config text code output) : code ∈ [0, 1, 2] := by
  cases h <;> decide

theorem Ends.code_eq_two_iff (h : Ends arguments mode config text code output) :
    code = 2 ↔ ∃ a ∈ arguments, a ∉ knownArguments := by
  have hall (known : ∀ a ∈ arguments, a ∈ knownArguments) :
      ¬ ∃ a ∈ arguments, a ∉ knownArguments := by
    rintro ⟨a, ha, hunknown⟩
    exact hunknown (known a ha)
  cases h with
  | unknownArgument unknown => exact iff_of_true rfl unknown
  | refused known => exact iff_of_false (by decide) (hall known)
  | checked known => exact iff_of_false (by decide) (hall known)
  | noPainter known => exact iff_of_false (by decide) (hall known)
  | explained known => exact iff_of_false (by decide) (hall known)

/-- A run succeeds if all it needs is there. -/
theorem Ends.code_eq_zero_iff (h : Ends arguments mode config text code output) :
    code = 0 ↔ (∀ a ∈ arguments, a ∈ knownArguments) ∧
      (∃ d, Document.readChecked text = .ok d) ∧
      ("--validate-only" ∈ arguments ∨
        ∃ p, (Flags.ofArguments arguments).painter mode config = .ok p) := by
  cases h with
  | unknownArgument unknown =>
    obtain ⟨a, ha, hunknown⟩ := unknown
    exact iff_of_false (by decide) fun h => hunknown (h.1 a ha)
  | refused known read => exact iff_of_false (by decide) (by simp [read])
  | checked known read checkOnly => exact iff_of_true rfl ⟨known, ⟨_, read⟩, .inl checkOnly⟩
  | noPainter known read explain painter =>
    exact iff_of_false (by decide) (by simp [explain, painter])
  | explained known read explain painter =>
    exact iff_of_true rfl ⟨known, ⟨_, read⟩, .inr ⟨_, painter⟩⟩

/-- Only a run that explains prints anything. -/
theorem Ends.output_eq_empty (h : Ends arguments mode config text code output)
    (hnone : code ≠ 0 ∨ "--validate-only" ∈ arguments) : output = "" := by
  cases h with
  | explained known read explain => simp [explain] at hnone
  | _ => rfl

/-- A run that succeeds and is to explain prints the whole explanation. -/
theorem Ends.output_eq_unlines (h : Ends arguments mode config text code output)
    (hcode : code = 0) (hexplain : "--validate-only" ∉ arguments) :
    ∃ d p e, Document.readChecked text = .ok d ∧
      (Flags.ofArguments arguments).painter mode config = .ok p ∧ d.explain p = .ok e ∧
      output = unlines (e.lines ("--leaves" ∈ arguments)) := by
  cases h with
  | checked known read checkOnly => exact absurd checkOnly hexplain
  | explained known read explain painter explanation =>
    exact ⟨_, _, _, read, painter, explanation, rfl⟩
  | _ => cases hcode

end Ends

/-- A run ends in one of these ways. -/
theorem respond_ends (arguments : List String) (mode : ColorMode) (overlay : Option String)
    (text : String) :
    Ends arguments mode (Config.load overlay).1 text
      (respond arguments mode overlay (some text)).outcome.code
      (respond arguments mode overlay (some text)).outcome.output := by
  rw [respond]
  cases hflags : Flags.read arguments with
  | error argument =>
    refine .unknownArgument ?_
    by_contra hnone
    have hknown : ∀ a ∈ arguments, a ∈ knownArguments := by simpa using hnone
    rw [Flags.read_eq_ok_iff.mpr ⟨hknown, rfl⟩] at hflags
    cases hflags
  | ok flags =>
    obtain ⟨hknown, rfl⟩ := Flags.read_eq_ok_iff.mp hflags
    simp only [Outcome.ofInput]
    cases hread : Document.readChecked text with
    | error e => exact .refused hknown hread
    | ok d =>
      by_cases hcheck : "--validate-only" ∈ arguments
      · have hflag : (Flags.ofArguments arguments).checkOnly = true := decide_eq_true hcheck
        simp only [Outcome.ofDocument_of_checkOnly hflag]
        exact .checked hknown hread hcheck
      · have hflag : (Flags.ofArguments arguments).checkOnly = false := decide_eq_false hcheck
        cases hpainter : (Flags.ofArguments arguments).painter mode (Config.load overlay).1 with
        | error e =>
          simp only [Outcome.ofDocument_of_no_painter hflag hpainter]
          exact .noPainter hknown hread hcheck hpainter
        | ok p =>
          obtain ⟨e, he, hexplained⟩ := Outcome.ofDocument_of_painter (d := d) hflag hpainter
          simp only [hexplained, Explanation.print_eq_unlines]
          exact .explained hknown hread hcheck hpainter he

/-- A file that describes no overlay is complained of and counts for nothing else. -/
theorem respond_of_broken_overlay {broken : String} (h : Overlay.read? broken = none)
    (arguments : List String) (mode : ColorMode) (input : Option String) :
    ∃ complaints, respond arguments mode (some broken) input =
      let r := respond arguments mode none input
      { r with outcome := { r.outcome with complaints := complaints ++ r.outcome.complaints } } := by
  have hload : Config.load (some broken) = (.standard, [complain "config parse error"]) := by
    rw [Config.load, Config.overlay?, Config.overlayBy?, h, Option.map_none]
  rw [respond, respond]
  cases Flags.read arguments with
  | error argument => exact ⟨[], rfl⟩
  | ok flags => exact ⟨[complain "config parse error"], by rw [hload]; rfl⟩

/-- A run has the standard configuration, with the overlay applied if there is one that can
be read. Its exit code on a text is 2 exactly when an argument is not known. With
known arguments it is 0 exactly when the text is a document that passes the checks and
either nothing is to be explained or there is a painter, and 1 otherwise. Nothing is
printed if the code is not 0 or if the document is only checked; otherwise what is
printed are the lines of its explanation, in full. No explanation fails for which
there is a painter, and an overlay that cannot be read makes no difference but for the
complaint. -/
theorem respond_all_or_nothing (arguments : List String) (mode : ColorMode)
    (overlay : Option String) (text : String) :
    let outcome := (respond arguments mode overlay (some text)).outcome
    let config := (Config.load overlay).1
    let painter := if "--no-color" ∈ arguments then .ok .plain else config.painter mode
    (config = match overlay.bind Overlay.read? with
      | some o => Config.standard.apply o
      | none => Config.standard) ∧
    (outcome.code = 2 ↔ ∃ a ∈ arguments, a ∉ knownArguments) ∧
    (outcome.code = 0 ↔ (∀ a ∈ arguments, a ∈ knownArguments) ∧
      (∃ d, Document.readChecked text = .ok d) ∧
      ("--validate-only" ∈ arguments ∨ "--no-color" ∈ arguments ∨
        ∃ p, config.painter mode = .ok p)) ∧
    outcome.code ∈ [0, 1, 2] ∧
    (outcome.code ≠ 0 ∨ "--validate-only" ∈ arguments → outcome.output = "") ∧
    (outcome.code = 0 → "--validate-only" ∉ arguments →
      ∃ d p e, Document.readChecked text = .ok d ∧ painter = .ok p ∧ d.explain p = .ok e ∧
        outcome.output = unlines (e.lines ("--leaves" ∈ arguments))) ∧
    (∀ p, painter = .ok p → ∀ d : Document, ∃ e, d.explain p = .ok e) ∧
    ∀ broken, overlay = some broken → Overlay.read? broken = none →
      ∃ complaints, respond arguments mode overlay (some text) =
        let r := respond arguments mode none (some text)
        { r with outcome := { r.outcome with complaints := complaints ++ r.outcome.complaints } } := by
  intro outcome config painter
  have hpainter : (Flags.ofArguments arguments).painter mode config = painter := by
    simp [Flags.painter, Flags.ofArguments, painter]
  have hsome : (∃ p, painter = .ok p) ↔
      "--no-color" ∈ arguments ∨ ∃ p, config.painter mode = .ok p := by
    by_cases hplain : "--no-color" ∈ arguments <;> simp [painter, hplain]
  have hends : Ends arguments mode config text outcome.code outcome.output :=
    respond_ends arguments mode overlay text
  have hzero := hends.code_eq_zero_iff
  have hprinted := hends.output_eq_unlines
  rw [hpainter] at hzero hprinted
  rw [hsome] at hzero
  refine ⟨Config.load_eq overlay, hends.code_eq_two_iff, hzero, hends.code_mem,
    hends.output_eq_empty, hprinted,
    fun p hp d => d.exists_explain (Flags.knows_painter (hpainter.trans hp)), ?_⟩
  rintro broken rfl hbroken
  exact respond_of_broken_overlay hbroken arguments mode (some text)

/-- The overlay cannot be read, and the run explains all three leaves. -/
theorem respond_all_or_nothing_broken :
    Overlay.read? "settings = 1" = none ∧
      (respond ["--leaves", "--no-color"] .shown (some "settings = 1")
        (some overrunText)).outcome.code = 0 ∧
      (∃ e : Explanation, e.glosses.map Gloss.kind = [.assignment, .program, .redirect] ∧
        (respond ["--leaves", "--no-color"] .shown (some "settings = 1")
          (some overrunText)).outcome.output = unlines (e.lines true)) ∧
      (respond ["--validate-only"] .shown none (some overrunText)).outcome.output = "" ∧
      (respond ["--leaves", "-l"] .shown none (some overrunText)).outcome.code = 2 := by
  have hbroken : Overlay.read? "settings = 1" = none := by
    rw [← Option.isNone_iff_eq_none]
    decide +kernel
  obtain ⟨-, -, hzero, -, -, hprinted, -, -⟩ :=
    respond_all_or_nothing ["--leaves", "--no-color"] .shown (some "settings = 1") overrunText
  obtain ⟨-, -, -, -, hsilent, -, -, -⟩ :=
    respond_all_or_nothing ["--validate-only"] .shown none overrunText
  obtain ⟨-, htwo, -, -, -, -, -, -⟩ :=
    respond_all_or_nothing ["--leaves", "-l"] .shown none overrunText
  have hexplained : ((Document.readChecked overrunText).toOption.bind fun d =>
      (d.explain .plain).toOption.map fun e => e.glosses.map Gloss.kind) =
        some [.assignment, .program, .redirect] := by
    decide +kernel
  obtain ⟨d, hd, hexplained⟩ := Option.bind_eq_some_iff.mp hexplained
  obtain ⟨e, he, hkinds⟩ := Option.map_eq_some_iff.mp hexplained
  have hd := eq_ok_of_toOption hd
  have he := eq_ok_of_toOption he
  have hcode := hzero.mpr ⟨by decide, ⟨d, hd⟩, .inr (.inl (by decide))⟩
  refine ⟨hbroken, hcode, ⟨e, hkinds, ?_⟩, hsilent (.inr (by decide)), htwo.mpr (by decide)⟩
  obtain ⟨d', p, e', hd', hp, he', houtput⟩ := hprinted hcode (by decide)
  rw [if_pos (by decide)] at hp
  obtain rfl : d = d' := Except.ok.inj (hd.symm.trans hd')
  obtain rfl : Painter.plain = p := Except.ok.inj hp
  obtain rfl : e = e' := Except.ok.inj (he.symm.trans he')
  exact houtput

end ShellGloss
