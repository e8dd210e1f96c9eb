/-!
# TOML values

A date or time is kept as its usual text. Numbers that are not integers are kept
as they are written.
-/

namespace ShellGloss

/-- A TOML value. Each key of a table occurs once. -/
inductive Toml where
  | text (value : String)
  | int (value : Int)
  | float (text : String)
  | bool (value : Bool)
  | date (text : String)
  | array (items : List Toml)
  | table (entries : List (String × Toml))
deriving Repr, Inhabited

end ShellGloss
