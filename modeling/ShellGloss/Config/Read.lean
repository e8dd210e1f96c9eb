import ShellGloss.Config.Basic
import ShellGloss.Toml.Reader

/-!
# Reading configurations

Configurations and overlays are written in TOML, under `settings` and `theme`;
other keys do not matter. In an overlay `replace` and `remove` under `theme` are no
names of roles.

Settings may also be written as an array of their values in order. A date stands
for a table with its text as the only entry.
-/

namespace ShellGloss

/-- The key under which the text of a date stands. -/
def Toml.dateKey : String :=
  "$__toml_private_datetime"

namespace Toml

/-- A value as the entries of a table. -/
def entries? : Toml → Option (List (String × Toml))
  | table es => some es
  | date day => some [(dateKey, .text day)]
  | _ => none

/-- A text. -/
def text? : Toml → Option String
  | text s => some s
  | _ => none

/-- A truth value. -/
def bool? : Toml → Option Bool
  | bool b => some b
  | _ => none

/-- A list of texts. -/
def texts? : Toml → Option (List String)
  | array items => items.mapM text?
  | _ => none

/-- What is read from a value that may be absent. -/
def readOr {α : Type} (default : α) (read : Toml → Option α) : Option Toml → Option α
  | none => some default
  | some v => read v

end Toml

/-- A key with a text as its value. -/
def Toml.textEntry? (e : String × Toml) : Option (String × String) :=
  e.2.text?.map fun value => (e.1, value)

/-- Entries that are all texts, as a stylesheet. -/
def Stylesheet.ofEntries? (es : List (String × Toml)) : Option Stylesheet :=
  (es.mapM Toml.textEntry?).map .ofList

/-! ## Configurations -/

/-- Settings, those left out being the standard ones. -/
def Settings.ofToml? : Toml → Option Settings
  | .array items => do
    let color ← Toml.readOr standard.color Toml.bool? items[0]?
    let logLevel ← Toml.readOr standard.logLevel Toml.text? items[1]?
    return ⟨color, logLevel⟩
  | v => do
    let es ← v.entries?
    let color ← Toml.readOr standard.color Toml.bool? (es.lookup "color")
    let logLevel ← Toml.readOr standard.logLevel Toml.text? (es.lookup "log_level")
    return ⟨color, logLevel⟩

/-- The styles of a configuration. -/
def Stylesheet.ofToml? (v : Toml) : Option Stylesheet :=
  v.entries?.bind ofEntries?

/-- The configuration that a text describes by itself. -/
def Config.read? (text : String) : Option Config := do
  let es ← Toml.read? text
  let settings ← Toml.readOr .standard Settings.ofToml? (es.lookup "settings")
  let theme ← Toml.readOr .empty Stylesheet.ofToml? (es.lookup "theme")
  return ⟨settings, theme⟩

/-! ## Overlays -/

namespace Overlay

/-- The overlay that changes nothing. -/
def empty : Overlay :=
  ⟨none, none, false, [], .empty⟩

/-- The settings of an overlay. In an array all of them must be there. -/
def readSettings? (o : Overlay) : Toml → Option Overlay
  | .array (color :: logLevel :: _) => do
    return { o with color := some (← color.bool?), logLevel := some (← logLevel.text?) }
  | .array _ => none
  | v => do
    let es ← v.entries?
    let color ← Toml.readOr none (fun v => v.bool?.map some) (es.lookup "color")
    let logLevel ← Toml.readOr none (fun v => v.text?.map some) (es.lookup "log_level")
    return { o with color, logLevel }

/-- The styles of an overlay. -/
def readTheme? (o : Overlay) (v : Toml) : Option Overlay := do
  let es ← v.entries?
  let replace ← Toml.readOr false Toml.bool? (es.lookup "replace")
  let remove ← Toml.readOr [] Toml.texts? (es.lookup "remove")
  let entries ← Stylesheet.ofEntries? (es.filter fun e => e.1 ≠ "replace" && e.1 ≠ "remove")
  return { o with replace, remove, entries }

/-- The overlay that a text describes. -/
def read? (text : String) : Option Overlay := do
  let es ← Toml.read? text
  let o ← Toml.readOr empty empty.readSettings? (es.lookup "settings")
  Toml.readOr o o.readTheme? (es.lookup "theme")

end Overlay

/-- The configuration after the overlay that a text describes, if it describes one. -/
def Config.overlay? (c : Config) (text : String) : Option Config :=
  c.overlayBy? Overlay.read? text

end ShellGloss
