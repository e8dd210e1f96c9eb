import ShellGloss.Config.Stylesheet
import ShellGloss.Painter
import ShellGloss.Style.Read

/-!
# Themes

A theme has a style for some of the roles, or for all of them. It is made of a
stylesheet whose names are those of roles; the first entry that cannot be used is
reported, its name before its style.
-/

namespace ShellGloss

/-- Why an entry of a stylesheet cannot be used. -/
inductive EntryFault where
  | unknownRole (name : String)
  | unknownColor (error : UnknownColor)
deriving DecidableEq, Repr

/-- Why a stylesheet does not make a theme, or not a complete one. -/
inductive ThemeError where
  | badEntry (name : String) (fault : EntryFault)
  | missing (error : MissingStyle)
deriving DecidableEq, Repr

/-- The wording of a fault. -/
def EntryFault.message : EntryFault → String
  | unknownRole name => "unknown style role " ++ inAccents name
  | unknownColor e => e.message

/-- The wording of an error. -/
def ThemeError.message : ThemeError → String
  | badEntry name fault => "invalid style for " ++ inAccents name ++ ": " ++ fault.message
  | missing e => e.message

/-- The role of that name, or the fault that there is none. -/
def Role.read (name : String) : Except EntryFault Role :=
  match ofName? name with
  | some r => .ok r
  | none => .error (.unknownRole name)

/-- A style for some of the roles. -/
structure Theme where
  style? : Role → Option Style

namespace Theme

/-- The theme without styles. -/
def empty : Theme :=
  ⟨fun _ => none⟩

/-- The theme with another style for a role. -/
def set (t : Theme) (role : Role) (style : Style) : Theme :=
  ⟨fun r => if r = role then some style else t.style? r⟩

/-- The role and the style of an entry. -/
def readEntry (e : String × String) : Except EntryFault (Role × Style) := do
  let role ← Role.read e.1
  let style ← (Style.read e.2).mapError .unknownColor
  return (role, style)

/-- The theme with the styles of further entries. -/
def addEntries : Theme → List (String × String) → Except ThemeError Theme
  | t, [] => .ok t
  | t, e :: es =>
    match readEntry e with
    | .error fault => .error (.badEntry e.1 fault)
    | .ok (role, style) => addEntries (t.set role style) es

/-- The theme that a stylesheet describes. -/
def ofStylesheet (s : Stylesheet) : Except ThemeError Theme :=
  empty.addEntries s.entries

/-- The first role without a style. -/
def firstMissing? (t : Theme) : Option Role :=
  Role.all.find? fun r => (t.style? r).isNone

/-- Refuses a theme that lacks a style. -/
def requireComplete (t : Theme) : Except MissingStyle Unit :=
  match t.firstMissing? with
  | some r => .error ⟨r⟩
  | none => .ok ()

/-- The painter that shows a text in the style of its role. -/
def painter (mode : ColorMode) (t : Theme) : Painter := fun role text =>
  match t.style? role with
  | some s => .ok (s.paint mode text)
  | none => .error ⟨role⟩

end Theme

end ShellGloss
