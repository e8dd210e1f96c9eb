import ShellGloss.Log
import ShellGloss.Style.Theme

/-!
# Configurations

A configuration says whether texts are painted, how much is logged, and in which
style each role is shown. An overlay changes a configuration: what it does not
mention stays as it is.
-/

namespace ShellGloss

/-- Whether texts are painted, and the name of the least grave level to log. -/
structure Settings where
  color : Bool
  logLevel : String
deriving DecidableEq, Repr

/-- The settings and the styles by the names of roles. -/
structure Config where
  settings : Settings
  theme : Stylesheet

/-- Changes to a configuration. `entries` give styles, the names in `remove` lose
theirs, and where `replace` is set all names do. -/
structure Overlay where
  color : Option Bool
  logLevel : Option String
  replace : Bool
  remove : List String
  entries : Stylesheet

/-- The settings that hold unless a configuration says otherwise. -/
def Settings.standard : Settings :=
  ⟨true, "warn"⟩

namespace Config

/-- The configuration that holds without any overlay. -/
def standard : Config :=
  ⟨.standard, .ofList
    [("program", "bold green"),
      ("subcommand", "green"),
      ("option", "yellow"),
      ("optionWithArg", "yellow"),
      ("stickyOption", "yellow"),
      ("argument", "cyan"),
      ("assignment", "magenta"),
      ("assignmentName", "magenta"),
      ("assignmentValue", "italic magenta"),
      ("operator", "bold blue"),
      ("pipe", "bold blue"),
      ("redirect", "bold dark yellow"),
      ("reservedWord", "bold magenta"),
      ("word", "default"),
      ("sudo", "bold red"),
      ("command", "default"),
      ("list", "default"),
      ("pipeline", "default")]⟩

/-- The styles after an overlay. An entry wins over a removal of the same name. -/
def mergeTheme (theme : Stylesheet) (o : Overlay) : Stylesheet :=
  if o.replace then o.entries else (theme.eraseAll o.remove).insertAll o.entries.entries

/-- The configuration after an overlay. -/
def apply (c : Config) (o : Overlay) : Config :=
  ⟨⟨o.color.getD c.settings.color, o.logLevel.getD c.settings.logLevel⟩, mergeTheme c.theme o⟩

/-- The configuration after the overlay that is read from a text, if one is. -/
def overlayBy? (read? : String → Option Overlay) (c : Config) (text : String) : Option Config :=
  (read? text).map c.apply

/-- What is logged. A level that is not known counts as `warn`. -/
def filter (c : Config) : Log.Filter :=
  (Log.Filter.ofName? c.settings.logLevel).getD ⟨some .warn⟩

/-- The complete theme of a configuration. -/
def completeTheme (c : Config) : Except ThemeError Theme := do
  let theme ← Theme.ofStylesheet c.theme
  theme.requireComplete.mapError .missing
  return theme

/-- The painter of a configuration. Where texts are to be painted, every role must
have a style. -/
def painter (mode : ColorMode) (c : Config) : Except ThemeError Painter :=
  if c.settings.color then c.completeTheme.map (Theme.painter mode) else .ok .plain

end Config

end ShellGloss
