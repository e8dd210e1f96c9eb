import ShellGloss.Config.Read
import ShellGloss.Explanation

/-!
# The command line

What a run of the program answers, given its arguments, the text of the overlay
file and the text of its input. A run fails as a whole: what it cannot explain in
full it does not explain at all.
-/

namespace ShellGloss

/-- What the arguments ask for. -/
structure Flags where
  /-- Texts are not painted. -/
  plain : Bool
  /-- The document is checked and not explained. -/
  checkOnly : Bool
  /-- The kind and the span of every leaf are shown. -/
  showLeaves : Bool
deriving DecidableEq, Repr

namespace Flags

/-- No arguments. -/
def none : Flags :=
  ⟨false, false, false⟩

/-- The flags after one more argument, if it is known. -/
def add? (f : Flags) (argument : String) : Option Flags :=
  if argument = "--no-color" then some { f with plain := true }
  else if argument = "--validate-only" then some { f with checkOnly := true }
  else if argument = "--leaves" then some { f with showLeaves := true }
  else Option.none

/-- The flags after further arguments, or the first that is not known. -/
def addAll : Flags → List String → Except String Flags
  | f, [] => .ok f
  | f, argument :: rest =>
    match f.add? argument with
    | some f => f.addAll rest
    | Option.none => .error argument

/-- What a list of arguments asks for, or the first of them that is not known. -/
def read (arguments : List String) : Except String Flags :=
  none.addAll arguments

end Flags

/-! ## What is printed -/

/-- The lines that show a gloss. -/
def Gloss.print (showLeaves : Bool) (g : Gloss) : String :=
  "  " ++ g.text
    ++ (match g.meaning with | some m => "  " ++ m | none => "")
    ++ "\n"
    ++ if showLeaves then "      " ++ g.kind.name ++ " " ++ g.span.render ++ "\n" else ""

/-- The lines that show an explanation. -/
def Explanation.print (showLeaves : Bool) (e : Explanation) : String :=
  e.line ++ "\n\n" ++ String.join (e.glosses.map (Gloss.print showLeaves))

/-- A complaint in the name of the program. -/
def complain (message : String) : String :=
  "shellexplain: " ++ message

/-! ## Runs -/

/-- How a run ends: the exit code, what it prints, what it complains of, and what
there is to log. -/
structure Outcome where
  code : Nat
  output : String
  complaints : List String
  records : List Log.Record
deriving DecidableEq, Repr

/-- A run that fails for one reason. -/
def Outcome.failure (message : String) (records : List Log.Record) : Outcome :=
  ⟨1, "", [complain message], records⟩

/-- The outcome of explaining a document that has been read and checked. -/
def Outcome.ofDocument (flags : Flags) (mode : ColorMode) (config : Config) (d : Document) :
    Outcome :=
  if flags.checkOnly then ⟨0, "", [], [d.record]⟩
  else
    match if flags.plain then .ok .plain else config.painter mode with
    | .error e => .failure e.message [d.record]
    | .ok p =>
      let records := d.record :: d.explainRecords p
      match d.explain p with
      | .error e => .failure e.message (records ++ [⟨.error, e.message⟩])
      | .ok e => ⟨0, e.print flags.showLeaves, [], records⟩

/-- The outcome of a run whose arguments are known. The input is missing when it is
no text. -/
def Outcome.ofInput (flags : Flags) (mode : ColorMode) (config : Config) :
    Option String → Outcome
  | none => ⟨1, "", ["failed to read stdin"], []⟩
  | some text =>
    match Document.readChecked text with
    | .error e => .failure e.message [⟨.error, e.message⟩]
    | .ok d => .ofDocument flags mode config d

/-- The configuration with the overlay of a text, if there is one. A text that
describes no overlay is complained of and otherwise ignored. -/
def Config.load : Option String → Config × List String
  | none => (standard, [])
  | some text =>
    match standard.overlay? text with
    | some c => (c, [])
    | none => (standard, [complain "config parse error"])

/-- What a run answers, and which records it wants to be written; none are when an
argument is not known. -/
structure Response where
  outcome : Outcome
  filter : Option Log.Filter

/-- The records that are to be written, where any may be. -/
def Response.written? (r : Response) : Option (List Log.Record) :=
  match r.filter with
  | some f => if f.level?.isSome then some (r.outcome.records.filter f.admits) else none
  | none => none

/-- A run of the program. -/
def respond (arguments : List String) (mode : ColorMode) (overlay : Option String)
    (input : Option String) : Response :=
  match Flags.read arguments with
  | .error argument =>
    ⟨⟨2, "", [complain ("unknown argument: " ++ argument)], []⟩, none⟩
  | .ok flags =>
    let (config, complaints) := Config.load overlay
    let outcome := Outcome.ofInput flags mode config input
    ⟨{ outcome with complaints := complaints ++ outcome.complaints }, some config.filter⟩

end ShellGloss
