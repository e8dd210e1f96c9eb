import ShellGloss.Style.Role
import ShellGloss.Text.Accents

/-!
# Painters

A painter says how a text is shown in each role, or why it cannot be. The painters of
themes fail for one reason: there is no style for the role.
-/

namespace ShellGloss

/-- A role that a painter does not know. -/
structure MissingStyle where
  role : Role
deriving DecidableEq, Repr

/-- The wording of the error. -/
def MissingStyle.message (e : MissingStyle) : String :=
  "style table has no entry for " ++ inAccents e.role.name

/-- How a text is shown in a role, or why it is not. -/
abbrev Painter (ε : Type := MissingStyle) : Type :=
  Role → String → Except ε String

/-- The painter that shows every text as it is. -/
def Painter.plain : Painter :=
  fun _ text => .ok text

end ShellGloss
