/-!
# Names in messages
-/

namespace ShellGloss

/-- A name between grave accents, as messages quote it. -/
def inAccents (s : String) : String :=
  "\x60" ++ s ++ "\x60"

end ShellGloss
